import ModelFeed.Proofs.Alteration
import ModelFeed.Proofs.Everywhere
import ModelFeed.Proofs.Touching
import ModelFeed.Subscription
/-!
# Changes that do not affect a subscription

The matcher looks at the path of a change only, the projection at the model only. They agree in
one direction: where the matcher sees no effect on a filter, the projection onto the filter is the
same before and after the change.

A list of scalars is copied whole whichever item a filter names, so a change inside an item of such
a list would go unnoticed. No path leads into an item unless it is a structured node or a map; this
is why the lists of scalars that a projection reads must not hold any.
-/

namespace ModelFeed

/-- Whether a list of scalars holds no structured node and no map. -/
def Node.isFlatList : Node → Bool
  | .list element items => element.isContainer || items.all (·.members?.isNone)
  | _ => true

/-- Whether no list of scalars, at any depth, holds a structured node or a map. -/
def Node.hasFlatLists (node : Node) : Bool :=
  node.everywhere isFlatList

/-- The same of those lists only that the projection onto a filter reads. -/
def Node.FlatAlong : List Token → Node → Prop
  | [], _ => True
  | .name text :: rest, node =>
    ∀ ms, node.members? = some ms →
      ∀ m ∈ ms, (Token.name text).selectsName m.key = true → FlatAlong rest m.value
  | .index wanted :: rest, node =>
    ∀ element items, node = .list element items →
      (element.isContainer = false → ∀ item ∈ items, item.members? = none) ∧
        ∀ i item, items[i]? = some item → Token.selectsIndex wanted i = true → FlatAlong rest item

theorem Node.flatAlong_of_hasFlatLists (tokens : List Token) {node : Node}
    (flat : node.hasFlatLists = true) : node.FlatAlong tokens := by
  induction tokens generalizing node with
  | nil => trivial
  | cons token rest ih =>
    cases token with
    | name text =>
      intro ms listed m member _
      exact ih (everywhere_of_member flat listed member)
    | index wanted =>
      rintro element items rfl
      obtain ⟨here, below⟩ := everywhere_list.mp flat
      constructor
      · intro scalar item member
        simp only [isFlatList, scalar, Bool.false_or, List.all_eq_true,
          Option.isNone_iff_eq_none] at here
        exact here item member
      · intro i item found _
        exact ih (below item (List.mem_of_getElem? found))

/-! ### Reading one slot of a list -/

/-- What a projection leaves of an item. -/
def Node.projectItem (element : ElementKind) (selected : Option Nat) (rest : List Token) (i : Nat)
    (item : Node) : Node :=
  if item.isNull then .null
  else if selected.any (· != i) then placeholder element
  else if rest.isEmpty then item
  else (item.project? rest).getD (placeholder element)

theorem Node.project?_index (element : ElementKind) (items : List Node) (index : Int)
    (rest : List Token) :
    (list element items).project? (.index index :: rest) =
      (selectedIndex? index items.length).map fun selected =>
        if !element.isContainer || selected.isNone && rest.isEmpty then .list element items
        else .list element (items.mapIdx (projectItem element selected rest)) := by
  rw [project?]
  cases selectedIndex? index items.length with
  | none => rfl
  | some selected =>
    simp only [Option.map_some]
    split <;> rfl

theorem selectedIndex?_eq_some {index : Int} {length : Nat} {selected : Option Nat}
    (h : selectedIndex? index length = some selected) :
    (selected = none ∧ index = Token.everyIndex) ∨
      ∃ i : Nat, selected = some i ∧ index = i ∧ i < length := by
  unfold selectedIndex? at h
  split at h
  next every =>
    cases h
    exact .inl ⟨rfl, every⟩
  next =>
    split at h
    next bounds =>
      cases h
      exact .inr ⟨index.toNat, rfl, by omega, by omega⟩
    next => cases h

theorem selectedIndex?_natCast {i length : Nat} (inside : i < length) :
    selectedIndex? (i : Int) length = some (some i) := by
  have natural : (i : Int) ≠ Token.everyIndex := by
    unfold Token.everyIndex
    omega
  rw [selectedIndex?, if_neg natural, if_pos (by omega), Int.toNat_natCast]

/-- An item is projected where the index token selects it. -/
theorem selectsIndex_of_selectedIndex? {index : Int} {length i : Nat} {selected : Option Nat}
    (h : selectedIndex? index length = some selected) (here : selected.any (· != i) = false) :
    Token.selectsIndex index i = true := by
  rcases selectedIndex?_eq_some h with ⟨rfl, rfl⟩ | ⟨j, rfl, rfl, -⟩
  · simp [Token.selectsIndex]
  · have same : j = i := by simpa using here
    simp [Token.selectsIndex, same]

theorem Node.isNull_of_members {node : Node} {ms : List Member} (listed : node.members? = some ms) :
    node.isNull = false := by
  cases node <;> first | rfl | cases listed

/-- A slot reads the same if it is not selected, or if the filter goes on and reads the same of it. -/
theorem Node.projectItem_eq {element : ElementKind} {selected : Option Nat} {rest : List Token}
    {index : Nat} {old new : Node} (oldHolds : old.isNull = false) (newHolds : new.isNull = false)
    (reads : selected.any (· != index) = false →
      rest ≠ [] ∧ new.project? rest = old.project? rest) :
    projectItem element selected rest index new =
      projectItem element selected rest index old := by
  by_cases other : selected.any (· != index) = true
  · simp [Node.projectItem, oldHolds, newHolds, other]
  · obtain ⟨more, same⟩ := reads (by simpa using other)
    simp [Node.projectItem, oldHolds, newHolds, other, more, same]

theorem mapIdx_set_eq {α β : Type} {f : Nat → α → β} {list : List α} {index : Nat} {old new : α}
    (found : list[index]? = some old) (same : f index new = f index old) :
    (list.set index new).mapIdx f = list.mapIdx f := by
  obtain ⟨inside, rfl⟩ := List.getElem?_eq_some_iff.mp found
  have mapped : index < (list.mapIdx f).length := by rwa [List.length_mapIdx]
  have kept := List.set_getElem_self mapped
  rw [List.getElem_mapIdx] at kept
  rw [List.mapIdx_set, same, kept]

theorem Token.selectsName_congr {key name : String} (token : Token)
    (same : sameName key name = true) : token.selectsName key = token.selectsName name := by
  cases token with
  | index => rfl
  | name text =>
    rw [sameName_iff] at same
    simp [sameName, same]

namespace Altered

variable {token : Token} {rest : List Token} {name : String}

/-- A name that does not select the altered one reads the same members. -/
theorem filterMap_eq_of_agree {ms ns : List Member}
    (agree : ms.filter (fun m => !m.named name) = ns.filter (fun m => !m.named name))
    (apart : token.selectsName name = false) :
    ns.filterMap (Member.project? token rest) = ms.filterMap (Member.project? token rest) := by
  -- Members of the altered name are not selected, so they may be dropped first.
  have dropped : ∀ list : List Member, list.filterMap (Member.project? token rest) =
      (list.filter fun m => !m.named name).filterMap (Member.project? token rest) := by
    intro list
    rw [List.filterMap_filter]
    congr 1
    funext m
    by_cases named : m.named name = true
    · have unread := (token.selectsName_congr named).trans apart
      simp [named, Member.project?, unread]
    · simp [named]
  rw [dropped ns, dropped ms, agree]

/-- An index reads nothing of what has members. -/
theorem project?_index_of_split {before after : Node} {ms ns : List Member} {wanted : Int}
    (was : before.members? = some ms) (is : after.members? = some ns) :
    after.project? (.index wanted :: rest) = before.project? (.index wanted :: rest) ∧
      after.FlatAlong (.index wanted :: rest) := by
  constructor
  · rw [Node.project?_index_of_members was, Node.project?_index_of_members is]
  · rintro element items rfl
    simp [Node.members?] at is

theorem project?_last {step : Step} {before after : Node} (agree : before.AgreeOff step.name after)
    {tokens : List Token} (untouched : Path.touches [step] tokens = false)
    (flat : before.FlatAlong tokens) :
    after.project? tokens = before.project? tokens ∧ after.FlatAlong tokens := by
  obtain ⟨ms, ns, was, is, same⟩ := agree
  match tokens with
  | [] => exact ⟨by simp [Node.project?], trivial⟩
  | .name text :: rest =>
    have apart := Path.selectsName_of_untouched untouched
    constructor
    · rw [Node.project?_name was, Node.project?_name is, filterMap_eq_of_agree same apart]
    · intro list listed m member selects
      obtain rfl : ns = list := Option.some.inj (is.symm.trans listed)
      have other : m.named step.name = false := Bool.eq_false_iff.mpr fun named => by
        rw [Token.selectsName_congr _ named, apart] at selects
        cases selects
      exact flat ms was m (mem_of_agree same.symm member other) selects
  | .index wanted :: rest => exact project?_index_of_split was is

/-- One member altered: a filter reads the same if it reads the same of that member. -/
theorem project?_member {before after value : Node} {front back : List Member} {m : Member}
    (was : before.members? = some (front ++ m :: back))
    (is : after.members? = some (front ++ { m with value } :: back)) {text : String}
    (below : (Token.name text).selectsName m.key = true → takesWhole rest = false ∧
      (m.value.FlatAlong rest → value.project? rest = m.value.project? rest ∧ value.FlatAlong rest))
    (flat : before.FlatAlong (.name text :: rest)) :
    after.project? (.name text :: rest) = before.project? (.name text :: rest) ∧
      after.FlatAlong (.name text :: rest) := by
  have here : m ∈ front ++ m :: back := by simp
  have reads : Member.project? (.name text) rest { m with value } =
      Member.project? (.name text) rest m := by
    by_cases selects : (Token.name text).selectsName m.key = true
    · obtain ⟨partly, kept⟩ := below selects
      obtain ⟨same, -⟩ := kept (flat _ was m here selects)
      simp [Member.project?, selects, partly, same]
    · have unread : (Token.name text).selectsName m.key = false := by simpa using selects
      simp only [Member.project?, unread]
      rfl
  constructor
  · rw [Node.project?_name was, Node.project?_name is]
    simp only [List.filterMap_append, List.filterMap_cons, reads]
  · -- Every member but the altered one was there before.
    intro list listed n member selects
    obtain rfl := Option.some.inj (is.symm.trans listed)
    rcases List.mem_append.mp member with kept | changed
    · exact flat _ was n (List.mem_append_left _ kept) selects
    · rcases List.mem_cons.mp changed with rfl | kept
      · exact ((below selects).2 (flat _ was m here selects)).2
      · exact flat _ was n (List.mem_append_right _ (List.mem_cons_of_mem _ kept)) selects

/-- One item of a list altered that a filter does not take whole. -/
theorem project?_item {element : ElementKind} {items : List Node} {index : Nat} {old new : Node}
    {wanted : Int} (found : items[index]? = some old)
    (shape : ∃ ms ns, old.members? = some ms ∧ new.members? = some ns)
    (below : Token.selectsIndex wanted index = true → rest ≠ [] ∧
      (old.FlatAlong rest → new.project? rest = old.project? rest ∧ new.FlatAlong rest))
    (flat : (Node.list element items).FlatAlong (.index wanted :: rest)) :
    (Node.list element (items.set index new)).project? (.index wanted :: rest) =
        (Node.list element items).project? (.index wanted :: rest) ∧
      (Node.list element (items.set index new)).FlatAlong (.index wanted :: rest) := by
  obtain ⟨ms, ns, was, is⟩ := shape
  obtain ⟨scalarsOnly, itemsFlat⟩ := flat element items rfl
  -- The item has members, so the list is none of scalars, which would be copied whole.
  have container : element.isContainer = true := by
    cases scalar : element.isContainer with
    | true => rfl
    | false =>
      have none := scalarsOnly scalar old (List.mem_of_getElem? found)
      rw [was] at none
      cases none
  have inside : index < items.length := (List.getElem?_eq_some_iff.mp found).1
  constructor
  · rw [Node.project?_index, Node.project?_index, List.length_set]
    cases picked : selectedIndex? wanted items.length with
    | none => rfl
    | some selected =>
      -- Only here could the changed item show: in its own slot, if that is selected.
      have slot : Node.projectItem element selected rest index new =
          Node.projectItem element selected rest index old := by
        refine Node.projectItem_eq (Node.isNull_of_members was) (Node.isNull_of_members is) fun here => ?_
        have chosen := selectsIndex_of_selectedIndex? picked here
        obtain ⟨more, kept⟩ := below chosen
        exact ⟨more, (kept (itemsFlat index old found chosen)).1⟩
      have whole : (selected.isNone && rest.isEmpty) = false := by
        rcases selectedIndex?_eq_some picked with ⟨rfl, rfl⟩ | ⟨j, rfl, -, -⟩
        · have more := (below (by simp [Token.selectsIndex])).1
          simp [more]
        · rfl
      simp only [Option.map_some, container, whole, Bool.not_true, Bool.or_self,
        Bool.false_eq_true, if_false, Option.some.injEq, Node.list.injEq, true_and]
      exact mapIdx_set_eq found slot
  · rintro kind list same
    cases same
    refine ⟨fun scalar => by simp [container] at scalar, fun i item held selects => ?_⟩
    by_cases here : i = index
    · subst here
      rw [List.getElem?_set_self inside, Option.some.injEq] at held
      subst held
      exact ((below selects).2 (itemsFlat i old found selects)).2
    · rw [List.getElem?_set_ne (Ne.symm here)] at held
      exact itemsFlat i item held selects

/-- Where a change touches nothing of a filter, the projection onto it stays. -/
theorem project?_eq {path : Path} {before after : Node} (altered : Altered path before after)
    {tokens : List Token} (untouched : path.touches tokens = false)
    (flat : before.FlatAlong tokens) :
    after.project? tokens = before.project? tokens ∧ after.FlatAlong tokens := by
  induction altered generalizing tokens with
  | last agree => exact project?_last agree untouched flat
  | @member name path before after value front back m was is named below ih =>
    cases tokens with
    | nil => exact ⟨by simp [Node.project?], trivial⟩
    | cons token rest =>
      cases token with
      | index wanted => exact project?_index_of_split was is
      | name text =>
        refine project?_member was is (fun selects => ?_) flat
        rw [Token.selectsName_congr _ named] at selects
        exact ⟨Path.takesWhole_of_untouched untouched selects,
          ih (Path.untouched_below_member untouched selects)⟩
  | @item list index path before after old new front back m element items was is named holds found
      below ih =>
    cases tokens with
    | nil => exact ⟨by simp [Node.project?], trivial⟩
    | cons token rest =>
      cases token with
      | index wanted => exact project?_index_of_split was is
      | name text =>
        refine project?_member was is (fun selects => ?_) flat
        rw [Token.selectsName_congr _ named] at selects
        refine ⟨Path.takesWhole_of_untouched untouched selects, fun reads => ?_⟩
        -- What stands behind the name is a list, so the next token decides.
        rw [holds] at reads ⊢
        cases rest with
        | nil => exact ⟨by simp [Node.project?], trivial⟩
        | cons next rest =>
          cases next with
          | name inner =>
            exact ⟨by simp [Node.project?], fun ms listed => by simp [Node.members?] at listed⟩
          | index wanted =>
            refine project?_item found below.members (fun selected => ?_) reads
            obtain ⟨more, apart⟩ := Path.untouched_below_item untouched selects selected
            exact ⟨more, ih apart⟩

end Altered

namespace Subscription

theorem isAffected_iff {s : Subscription} {path : Path} : s.isAffected path = true ↔
    s.filters = [] ∨ ∃ filter ∈ s.filters, path.touches filter.tokens = true := by
  simp [isAffected, Path.touches]

/-- A change that does not affect a subscription touches none of its filters. -/
theorem isAffected_eq_false_iff {s : Subscription} {path : Path} :
    s.isAffected path = false ↔
      s.filters ≠ [] ∧ ∀ filter ∈ s.filters, path.touches filter.tokens = false := by
  rw [← Bool.not_eq_true, isAffected_iff]
  simp

/-- The lists of scalars that any of the projections reads hold scalars. -/
def FlatFor (s : Subscription) (root : Node) : Prop :=
  ∀ filter ∈ s.filters, root.FlatAlong filter.tokens

theorem flatFor_of_hasFlatLists (s : Subscription) {root : Node}
    (flat : root.hasFlatLists = true) : s.FlatFor root :=
  fun filter _ => Node.flatAlong_of_hasFlatLists filter.tokens flat

theorem project?_eq_of_unaffected {s : Subscription} {path : Path} {before after : Node}
    (altered : Altered path before after) (unaffected : s.isAffected path = false)
    (flat : s.FlatFor before) :
    (∀ filter ∈ s.filters, after.project? filter.tokens = before.project? filter.tokens) ∧
      s.FlatFor after := by
  obtain ⟨-, untouched⟩ := isAffected_eq_false_iff.mp unaffected
  constructor
  · intro filter member
    exact (altered.project?_eq (untouched filter member) (flat filter member)).1
  · intro filter member
    exact (altered.project?_eq (untouched filter member) (flat filter member)).2

theorem view_congr {s : Subscription} {before after : Node} (filtered : s.filters ≠ [])
    (same : ∀ filter ∈ s.filters, after.project? filter.tokens = before.project? filter.tokens) :
    s.view after = s.view before := by
  have parts : (s.filters.filterMap fun filter => after.project? filter.tokens) =
      s.filters.filterMap fun filter => before.project? filter.tokens :=
    List.filterMap_congr same
  have nonempty : s.filters.isEmpty = false := by simpa using filtered
  rw [view, view, if_neg (by simp [nonempty]), if_neg (by simp [nonempty]), parts]

theorem view_eq_of_unaffected {s : Subscription} {path : Path} {before after : Node}
    (altered : Altered path before after) (unaffected : s.isAffected path = false)
    (flat : s.FlatFor before) : s.view after = s.view before :=
  view_congr (isAffected_eq_false_iff.mp unaffected).1
    (project?_eq_of_unaffected altered unaffected flat).1

/-- No mutation that alters what a client receives goes unnoticed: when the reported change does not
affect the subscription, every projection and the whole view are as before. -/
theorem unaffected_change_keeps_view {store after : Store} {mutation : Mutation} {path : Path}
    (flat : store.root.hasFlatLists = true)
    (applied : mutation.apply store = (after, .ok (some path))) (s : Subscription)
    (unaffected : s.isAffected path = false) :
    (∀ filter ∈ s.filters, after.root.project? filter.tokens = store.root.project? filter.tokens) ∧
      s.view after.root = s.view store.root := by
  have altered := altered_of_apply applied
  have reads := s.flatFor_of_hasFlatLists flat
  exact ⟨(project?_eq_of_unaffected altered unaffected reads).1,
    view_eq_of_unaffected altered unaffected reads⟩

/-- Homing the second axis is no news for who watches the letter of the first one. -/
theorem homed_axis_keeps_letter_view :
    let store := Store.ofRoot (.map [("axes", Machine.axis.newList 2)])
    let s : Subscription := ⟨.full, [⟨"axes[0].letter", [.name "axes", .index 0, .name "letter"]⟩]⟩
    ∃ after, store.root.hasFlatLists = true ∧
      Mutation.apply store (.set [.item "axes" 1, .member "homed"] (.bool true)) =
        (after, .ok (some [.item "axes" 1, .member "homed"])) ∧
      s.isAffected [.item "axes" 1, .member "homed"] = false ∧
      (∀ filter ∈ s.filters, after.root.project? filter.tokens =
        store.root.project? filter.tokens) ∧
      s.view after.root = s.view store.root := by
  intro store s
  have flat : store.root.hasFlatLists = true := by decide
  have applied : Mutation.apply store (.set [.item "axes" 1, .member "homed"] (.bool true)) =
      (_, .ok (some [.item "axes" 1, .member "homed"])) := rfl
  have unaffected : s.isAffected [.item "axes" 1, .member "homed"] = false := by decide
  exact ⟨_, flat, applied, unaffected, unaffected_change_keeps_view flat applied s unaffected⟩

end Subscription

end ModelFeed
