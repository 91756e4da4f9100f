import ModelFeed.Proofs.Patching
/-!
# What changes leave behind

A successful mutation leaves something at the path that it reports, or, if it removed an entry, at
the parent of that path. It stays there until another change meets the path: one that is reported at
a name on the way to it. And where a path leads to something, the projection onto the path finds
something, whichever of the members of one name the path leads through.
-/

namespace ModelFeed

/-- What a step enters behind its name. -/
def Step.enter? : Step → Node → Option Node
  | .member _, value => some value
  | .item _ index, value => value.item? index

/-- A path leads to something in a node, through any member of each name. -/
inductive Node.HasPath : Path → Node → Prop where
  | nil {node : Node} : HasPath [] node
  | cons {step : Step} {path : Path} {node child : Node} {ms : List Member} {m : Member}
      (listed : node.members? = some ms) (member : m ∈ ms) (named : m.named step.name = true)
      (entered : step.enter? m.value = some child) (below : HasPath path child) :
      HasPath (step :: path) node

/-- Something is left of what was reported at a path: it or its parent is there. -/
def Node.Landed (root : Node) (path : Path) : Prop :=
  ∃ front back, front ++ back = path ∧ front ≠ [] ∧ back.length ≤ 1 ∧ root.HasPath front

namespace Node

variable {node root child : Node} {ms : List Member} {m : Member} {path : Path}

theorem child?_eq (node : Node) (step : Step) :
    node.child? step = (node.member? step.name).bind step.enter? := by
  cases step <;> rfl

theorem members_of_hasPath (has : node.HasPath path) (more : path ≠ []) :
    ∃ ms, node.members? = some ms := by
  cases has with
  | nil => exact absurd rfl more
  | cons listed => exact ⟨_, listed⟩

theorem isScalar_of_members (listed : node.members? = some ms) : node.isScalar = false := by
  cases node <;> first | rfl | cases listed

theorem item?_eq_some {index : Nat} (h : node.item? index = some child) :
    ∃ element items, node = .list element items ∧ items[index]? = some child := by
  cases node with
  | list element items => exact ⟨element, items, rfl, h⟩
  | _ => cases h

/-! ### Projections find what is there -/

theorem exists_project?_of_kept {name : String} {rest : List Token} {pair : String × Node}
    (listed : node.members? = some ms) (member : m ∈ ms)
    (kept : m.project? (.name name) rest = some pair) :
    ∃ part, node.project? (.name name :: rest) = some part := by
  have held := List.mem_filterMap.mpr ⟨m, member, kept⟩
  rw [project?_name listed]
  cases selected : ms.filterMap (Member.project? (.name name) rest) with
  | nil => simp [selected] at held
  | cons first others => exact ⟨_, rfl⟩

/-- A list has a projection onto every index in range, if only a list of stand-ins. -/
theorem exists_project?_index (element : ElementKind) {items : List Node} {i : Nat}
    (inside : i < items.length) (rest : List Token) :
    ∃ part, (list element items).project? (.index i :: rest) = some part := by
  rw [project?_index, selectedIndex?_natCast inside, Option.map_some]
  exact ⟨_, rfl⟩

/-- **Where a path leads to something, its projection finds something.** Properties have to hold
values of their kinds, because a projection does not look below a property of a scalar kind. -/
theorem exists_project?_of_hasPath (kinds : node.everywhere keepsPropertyKinds = true)
    (has : node.HasPath path) (more : path ≠ []) : ∃ part, node.project? path.tokens = some part := by
  induction has with
  | nil => exact absurd rfl more
  | @cons step path node child ms m listed member named entered below ih =>
    have selects : (Token.name step.name).selectsName m.key = true := by simp [sameName_symm named]
    cases step with
    | member name =>
      cases entered
      by_cases whole : takesWhole path.tokens = true
      · exact exists_project?_of_kept listed member (Member.project?_whole selects whole)
      · -- The path goes on, so the member is no scalar and the projection may enter it.
        have goesOn : path ≠ [] := by
          rintro rfl
          exact whole rfl
        obtain ⟨inner, holds⟩ := members_of_hasPath below goesOn
        have isOpen := isOpen_of_member kinds listed member (isScalar_of_members holds)
        obtain ⟨part, found⟩ := ih (everywhere_of_member kinds listed member) goesOn
        exact exists_project?_of_kept listed member
          (Member.project?_inside selects (Bool.eq_false_iff.mpr whole) isOpen found)
    | item list i =>
      obtain ⟨element, items, holds, found⟩ := item?_eq_some entered
      have inside : i < items.length := (List.getElem?_eq_some_iff.mp found).1
      have isOpen := isOpen_of_member kinds listed member (by rw [holds]; rfl)
      -- An index too large for a token stands for a smaller one, which is in range as well.
      obtain ⟨part, projected⟩ := exists_project?_index element
        (Nat.lt_of_le_of_lt (Nat.min_le_left i Token.maxIndex) inside) path.tokens
      rw [← holds] at projected
      exact exists_project?_of_kept listed member
        (Member.project?_inside selects (takesWhole_index _ _) isOpen projected)

/-- Where something has landed, a report of the change is not empty. -/
theorem exists_remains?_of_landed (kinds : root.everywhere keepsPropertyKinds = true)
    (landed : root.Landed path) : ∃ part, root.remains? path = some part := by
  obtain ⟨front, back, rfl, nonempty, short, has⟩ := landed
  obtain ⟨part, found⟩ := exists_project?_of_hasPath kinds has nonempty
  cases own : root.project? (Path.tokens (front ++ back)) with
  | some whole => exact ⟨whole, by rw [remains?, own, Option.orElse_some]⟩
  | none =>
    cases back with
    | nil => simp [found] at own
    | cons last others =>
      obtain rfl : others = [] :=
        List.length_eq_zero_iff.mp (Nat.le_zero.mp (Nat.le_of_succ_le_succ short))
      exact ⟨part, by simp [remains?, own, found]⟩

end Node

/-! ### What mutations leave at the paths that they report -/

namespace Node

variable {before after : Node} {edit : Edit} {step : Step} {parents : Path}

theorem hasPath_of_split {front back : List Member} {m : Member} {value child : Node} {path : Path}
    (is : after.members? = some (front ++ { m with value } :: back))
    (named : m.named step.name = true) (entered : step.enter? value = some child)
    (below : child.HasPath path) : after.HasPath (step :: path) := by
  have member : { m with value } ∈ front ++ { m with value } :: back := by simp
  exact .cons is member named entered below

/-- An edit at a step is an edit of what a look-up of the step finds, and the outcome is there
afterwards. -/
theorem modifyChild_eq_ok (h : before.modifyChild step edit = .ok after) :
    ∃ old new, before.child? step = some old ∧ edit old = .ok new ∧
      ∀ path, new.HasPath path → after.HasPath (step :: path) := by
  cases step with
  | member name =>
    obtain ⟨front, m, back, value, -, is, named, edited, looked⟩ := modifyMember_eq_ok h
    refine ⟨m.value, value, ?_, edited, ?_⟩
    · rw [child?_eq, Step.name, looked]
      rfl
    · intro path below
      exact hasPath_of_split is named rfl below
  | item list index =>
    obtain ⟨front, m, back, element, items, old, new, -, is, named, holds, found, edited, looked⟩ :=
      modifyItem_eq_ok h
    have inside : index < items.length := (List.getElem?_eq_some_iff.mp found).1
    refine ⟨old, new, ?_, edited, ?_⟩
    · rw [child?_eq, Step.name, looked, holds]
      exact found
    · intro path below
      refine hasPath_of_split is named ?_ below
      simp [Step.enter?, item?, items?, inside]

/-- An edit at a path likewise: what the new node leads to is there behind the path. -/
theorem modifyAt_eq_ok (h : before.modifyAt parents edit = .ok after) :
    ∃ old new, before.get? parents = some old ∧ edit old = .ok new ∧
      ∀ path, new.HasPath path → after.HasPath (parents ++ path) := by
  induction parents generalizing before after with
  | nil => exact ⟨before, after, rfl, h, fun _ has => has⟩
  | cons step parents ih =>
    obtain ⟨child, changed, stepped, inner, above⟩ := modifyChild_eq_ok h
    obtain ⟨old, new, reached, edited, below⟩ := ih inner
    refine ⟨old, new, ?_, edited, fun path has => above _ (below path has)⟩
    rw [get?_cons, stepped, Option.bind_some, reached]

theorem hasPath_of_assign {name : String} {value : Node} (h : assign name value before = .ok after) :
    after.HasPath [.member name] := by
  cases before with
  | structured schema values =>
    obtain ⟨front, m, back, new, -, is, named⟩ := assign_structured_eq_ok h
    exact hasPath_of_split is named rfl .nil
  | map entries =>
    cases h
    -- The entry is there under the spelling it had, or else under the name itself.
    have held := Entries.mem_of_get? (Entries.get?_insert_self
      ((Entries.findKey? name entries).getD name) value entries)
    exact .cons rfl (List.mem_map_of_mem held) (Entries.findKey?_getD_named name entries) rfl .nil
  | _ => cases h

theorem hasPath_of_replaceChild {value : Node} (h : replaceChild step value before = .ok after) :
    after.HasPath [step] := by
  cases step with
  | member name => exact hasPath_of_assign h
  | item list index =>
    have edited : before.modifyChild (.item list index) (fun _ => .ok value) = .ok after := h
    obtain ⟨old, new, -, -, above⟩ := modifyChild_eq_ok edited
    exact above [] .nil

/-- A push leaves the new item where it says. -/
theorem hasPath_of_pushChild {path : Path} {name : String} {item : Node}
    (h : pushChild path name item before = .ok after) :
    after.HasPath [.item name (((before.member? name).bind items?).elim 0 List.length)] := by
  obtain ⟨front, m, back, value, -, is, named, pushed, looked⟩ := modifyMember_eq_ok h
  cases grown : m.value.push? item with
  | none => simp [grown] at pushed
  | some grownList =>
    simp only [grown, Except.ok.injEq] at pushed
    subst pushed
    rw [looked, Option.bind_some]
    exact hasPath_of_split is named (item?_push? grown) .nil

end Node

/-- **Every mutation leaves something where it reports a change.** -/
theorem landed_of_apply {mutation : Mutation} {store after : Store} {changed : Path}
    (h : mutation.apply store = (after, .ok (some changed))) : after.root.Landed changed := by
  obtain ⟨path, value, done⟩ | ⟨path, item, done⟩ | ⟨name, done⟩ := Mutation.apply_cases h
  · obtain ⟨parents, last, rfl, rfl, edited, -⟩ := Store.set_eq_ok done
    obtain ⟨old, new, -, replaced, above⟩ := Node.modifyAt_eq_ok edited
    exact ⟨_, [], List.append_nil _, by simp, Nat.zero_le 1,
      above _ (Node.hasPath_of_replaceChild replaced)⟩
  · obtain ⟨parents, name, rfl, rfl, edited, -⟩ := Store.push_eq_ok done
    obtain ⟨old, new, reached, pushed, above⟩ := Node.modifyAt_eq_ok edited
    -- The index that is reported is the length of the list before, which the edit has found too.
    have list : store.get? (parents ++ [.member name]) = old.member? name := by
      rw [Store.get?, Node.get?_concat, reached, Option.bind_some, Node.child?_member]
    refine ⟨_, [], List.append_nil _, by simp, Nat.zero_le 1, ?_⟩
    rw [list]
    exact above _ (Node.hasPath_of_pushChild pushed)
  · -- What was removed is gone, but the variables are still there.
    obtain ⟨entries, key, -, -, rfl, edited, -⟩ := Store.removeGlobal_eq_some done
    obtain ⟨front, m, back, value, -, is, named, -, -⟩ := Node.modifyMember_eq_ok edited
    refine ⟨[.member Store.globals], [.member key], rfl, by simp, Nat.le_refl 1, ?_⟩
    exact Node.hasPath_of_split is named rfl .nil

/-! ### Changes elsewhere -/

/-- The item a step enters, if it enters one. -/
def Step.index? : Step → Option Nat
  | .member _ => none
  | .item _ index => some index

/-- Whether a change at the first path may take away what the second path leads to: the last name
of the first is a name of the second, behind the same steps. -/
def Path.meets : Path → Path → Bool
  | step :: change, other :: path =>
    sameName step.name other.name &&
      (change.isEmpty || step.index? == other.index? && meets change path)
  | _, _ => false

theorem Path.meets_cons {step other : Step} {change path : Path} :
    meets (step :: change) (other :: path) = true ↔ sameName step.name other.name = true ∧
      (change = [] ∨ step.index? = other.index? ∧ change.meets path = true) := by
  simp [meets]

theorem Path.meets_append {change front : Path} (h : meets change front = true) (back : Path) :
    meets change (front ++ back) = true := by
  induction change generalizing front with
  | nil => cases h
  | cons step change ih =>
    cases front with
    | nil => cases h
    | cons other front =>
      obtain ⟨same, ends⟩ := meets_cons.mp h
      exact meets_cons.mpr ⟨same, ends.imp_right fun goesOn => ⟨goesOn.1, ih goesOn.2⟩⟩

/-- A change further down leaves what another path leads to below the same step. -/
theorem Path.meets_below {step other : Step} {change path : Path}
    (apart : meets (step :: change) (other :: path) = false)
    (same : sameName step.name other.name = true) (entered : step.index? = other.index?) :
    change.meets path = false :=
  Bool.eq_false_iff.mpr fun below =>
    Bool.eq_false_iff.mp apart (meets_cons.mpr ⟨same, .inr ⟨entered, below⟩⟩)

namespace Altered

variable {before after : Node}

theorem sameName_of_named {m : Member} {name other : String} (here : m.named name = true)
    (there : m.named other = true) : sameName name other = true :=
  sameName_trans (sameName_symm here) there

/-- Where one member was altered, a path leads on if it leads on below that member. -/
theorem hasPath_of_split {value : Node} {front back : List Member} {m : Member} {path : Path}
    (was : before.members? = some (front ++ m :: back))
    (is : after.members? = some (front ++ { m with value } :: back)) (has : before.HasPath path)
    (below : ∀ step rest child, path = step :: rest → m.named step.name = true →
      step.enter? m.value = some child → child.HasPath rest →
        ∃ other, step.enter? value = some other ∧ other.HasPath rest) : after.HasPath path := by
  cases has with
  | nil => exact .nil
  | @cons step rest node child ms n listed member named entered inside =>
    obtain rfl := Option.some.inj (was.symm.trans listed)
    rcases List.mem_append.mp member with kept | changed
    · exact .cons is (List.mem_append_left _ kept) named entered inside
    · rcases List.mem_cons.mp changed with rfl | kept
      · obtain ⟨other, enters, leads⟩ := below step rest child rfl named entered inside
        exact Node.hasPath_of_split is named enters leads
      · exact .cons is (List.mem_append_right _ (List.mem_cons_of_mem _ kept)) named entered inside

/-- **What a change does not meet stays there.** -/
theorem hasPath {change path : Path} (altered : Altered change before after)
    (has : before.HasPath path) (apart : change.meets path = false) : after.HasPath path := by
  induction altered generalizing path with
  | last agree =>
    obtain ⟨ms, ns, was, is, same⟩ := agree
    cases has with
    | nil => exact .nil
    | @cons step rest node child list m listed member named entered below =>
      obtain rfl := Option.some.inj (was.symm.trans listed)
      have other := Bool.eq_false_iff.mpr fun here =>
        Bool.eq_false_iff.mp apart (Path.meets_cons.mpr ⟨sameName_of_named here named, .inl rfl⟩)
      exact .cons is (mem_of_agree same member other) named entered below
  | @member name change before after value front back m was is named altered ih =>
    refine hasPath_of_split was is has fun step rest child goes there entered leads => ?_
    subst goes
    cases step with
    | member other =>
      cases entered
      have below := Path.meets_below apart (sameName_of_named named there) rfl
      exact ⟨value, rfl, ih leads below⟩
    | item list i =>
      -- What has members is not a list, so the path does not lead through it.
      obtain ⟨ms, ns, listed, -⟩ := altered.members
      obtain ⟨element, items, holds, -⟩ := Node.item?_eq_some entered
      rw [holds] at listed
      cases listed
  | @item name index change before after old new front back m element items was is named holds found
      altered ih =>
    refine hasPath_of_split was is has fun step rest child goes there entered leads => ?_
    subst goes
    rw [holds] at entered
    cases step with
    | member other =>
      -- A list has no members, so the path ends at it.
      cases entered
      cases leads with
      | nil => exact ⟨_, rfl, .nil⟩
      | cons listed => cases listed
    | item other i =>
      have inside : index < items.length := (List.getElem?_eq_some_iff.mp found).1
      by_cases here : index = i
      · subst here
        obtain rfl : old = child := Option.some.inj (found.symm.trans entered)
        have below := Path.meets_below apart (sameName_of_named named there) rfl
        exact ⟨new, by simp [Step.enter?, Node.item?, Node.items?, inside], ih leads below⟩
      · refine ⟨child, ?_, leads⟩
        simpa [Step.enter?, Node.item?, Node.items?, here] using entered

end Altered

end ModelFeed
