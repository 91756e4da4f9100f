import ModelFeed.Proofs.Projecting
/-!
# Filters that end in `**`

A filter that ends in a name selects what the name leads to, and a `**` after it changes nothing. After
an index it does: the tokens that follow an index are read inside the items, and there `**` is a name
like any other. So an item of a list that is taken apart is not delivered, unless it has members that
are called `**`. Lists of scalars are not taken apart.

The projection onto a filter in two parts depends on the second part only through what it selects of
the values that the first part leads to (`Node.project?_append_congr`).
-/

namespace ModelFeed

/-- The index of an index token. -/
def Token.index? : Token → Option Int
  | .name _ => none
  | .index wanted => some wanted

namespace Node

/-- Whether a condition holds of every value that a filter leads to. -/
def Along (condition : Node → Prop) : List Token → Node → Prop
  | [], node => condition node
  | .name text :: rest, node =>
    ∀ m ∈ node.allMembers?.getD [],
      (Token.name text).selectsName m.key = true → Along condition rest m.value
  | .index wanted :: rest, node =>
    ∀ slot ∈ (node.slots?.elim [] Prod.snd).zipIdx,
      Token.selectsIndex wanted slot.2 = true → Along condition rest slot.1

instance decidableAlong (condition : Node → Prop) [DecidablePred condition] :
    (tokens : List Token) → (node : Node) → Decidable (node.Along condition tokens)
  | [], node => inferInstanceAs (Decidable (condition node))
  | .name _ :: rest, _ =>
    have (value : Node) := decidableAlong condition rest value
    inferInstanceAs (Decidable (∀ m ∈ _, _ → _))
  | .index _ :: rest, _ =>
    have (value : Node) := decidableAlong condition rest value
    inferInstanceAs (Decidable (∀ slot ∈ _, _ → _))

/-- Whether no member of a node is selected by a name. -/
def Lacks (text : String) (node : Node) : Prop :=
  ∀ m ∈ node.allMembers?.getD [], (Token.name text).selectsName m.key = false

instance (text : String) (node : Node) : Decidable (node.Lacks text) :=
  inferInstanceAs (Decidable (∀ m ∈ _, _))

end Node

theorem takesWhole_append {back : List Token} (more : back ≠ []) (inside : takesWhole back = false)
    (front : List Token) : takesWhole (front ++ back) = false := by
  cases front with
  | nil => exact inside
  | cons token front =>
    obtain ⟨next, rest, joined⟩ := List.exists_cons_of_ne_nil (List.append_ne_nil_of_right_ne_nil front more)
    rw [List.cons_append, joined]
    rfl

namespace Node

variable {condition weaker : Node → Prop} {node : Node} {text : String} {wanted : Int}
  {front rest other back : List Token}

theorem Along.mono (h : node.Along condition front)
    (implies : ∀ value, condition value → weaker value) : node.Along weaker front := by
  induction front generalizing node with
  | nil => exact implies node h
  | cons token front ih =>
    cases token with
    | name text => exact fun m member selects => ih (h m member selects)
    | index wanted => exact fun slot held selects => ih (h slot held selects)

theorem Along.of_forall (h : ∀ value, condition value) : node.Along condition front := by
  induction front generalizing node with
  | nil => exact h node
  | cons token front ih =>
    cases token with
    | name text => exact fun _ _ _ => ih
    | index wanted => exact fun _ _ _ => ih

theorem Along.member {ms : List Member} {m : Member} (h : node.Along condition (.name text :: front))
    (listed : node.allMembers? = some ms) (member : m ∈ ms)
    (selects : (Token.name text).selectsName m.key = true) : m.value.Along condition front :=
  h m (by rwa [listed]) selects

theorem Along.slot {element : ElementKind} {slots : List Node} {i : Nat} {slot : Node}
    (h : node.Along condition (.index wanted :: front))
    (opened : node.slots? = some (element, slots)) (here : slots[i]? = some slot)
    (selects : Token.selectsIndex wanted i = true) : slot.Along condition front :=
  h (slot, i) (by rw [opened]; exact List.mk_mem_zipIdx_iff_getElem?.mpr here) selects

theorem along_append : node.Along condition (front ++ back) ↔
    node.Along (fun value => value.Along condition back) front := by
  induction front generalizing node with
  | nil => rfl
  | cons token front ih => cases token <;> simp only [List.cons_append, Along, ih]

/-! ### One token before the part that changes -/

theorem project?_name_of_closed (closed : node.allMembers? = none) (text : String)
    (rest : List Token) : node.project? (.name text :: rest) = none := by
  cases found : node.project? (.name text :: rest) with
  | none => rfl
  | some part =>
    obtain ⟨ms, listed⟩ := allMembers?_of_project? found
    rw [closed] at listed
    cases listed

theorem project?_index_of_closed (closed : node.slots? = none) (wanted : Int)
    (rest : List Token) : node.project? (.index wanted :: rest) = none := by
  cases found : node.project? (.index wanted :: rest) with
  | none => rfl
  | some part =>
    obtain ⟨slots, opened⟩ := slots?_of_project? found
    rw [closed] at opened
    cases opened

theorem project?_name_congr (inside : takesWhole rest = false) (also : takesWhole other = false)
    (same : node.Along (fun value => value.project? rest = value.project? other) [.name text]) :
    node.project? (.name text :: rest) = node.project? (.name text :: other) := by
  cases listed : node.allMembers? with
  | none => rw [project?_name_of_closed listed, project?_name_of_closed listed]
  | some ms =>
    rw [project?_name_of_allMembers listed, project?_name_of_allMembers listed]
    congr 1
    apply List.filterMap_congr
    intro m member
    cases selects : (Token.name text).selectsName m.key with
    | false => simp [Member.project?, selects]
    | true =>
      have read : m.value.project? rest = m.value.project? other :=
        same.member listed member selects
      simp [Member.project?, selects, inside, also, read]

/-- A slot is read by what the tokens select of it, if the index selects it and it is not null. -/
theorem keepSlot_congr {place : Node → Node} {selected : Option Nat} {i length : Nat} {slot : Node}
    (chosen : selectedIndex? wanted length = some selected)
    (same : Token.selectsIndex wanted i = true → slot.isNull = false →
      rest.isEmpty = other.isEmpty ∧ slot.project? rest = slot.project? other) :
    keepSlot place selected rest i slot = keepSlot place selected other i slot := by
  unfold keepSlot
  split
  next => rfl
  next given =>
    split
    next => rfl
    next here =>
      have selects := selectsIndex_of_selectedIndex? chosen (by simpa using here)
      obtain ⟨ended, read⟩ := same selects (by simpa using given)
      rw [ended, read]

theorem project?_index_congr (more : rest ≠ []) (also : other ≠ [])
    (same : node.Along (fun value => value.project? rest = value.project? other) [.index wanted]) :
    node.project? (.index wanted :: rest) = node.project? (.index wanted :: other) := by
  have going : rest.isEmpty = other.isEmpty := by
    rw [List.isEmpty_eq_false_iff.mpr more, List.isEmpty_eq_false_iff.mpr also]
  cases opened : node.slots? with
  | none => rw [project?_index_of_closed opened, project?_index_of_closed opened]
  | some pair =>
    obtain ⟨element, slots⟩ := pair
    rw [project?_index_eq opened, project?_index_eq opened, going]
    refine Option.map_congr fun selected chosen => ?_
    rw [mapIdx_congr fun i slot here => keepSlot_congr chosen fun selects _ =>
      ⟨going, same.slot opened here selects⟩]

/-- The projection onto a filter depends on its second part only through what this part selects of
the values that the first part leads to. -/
theorem project?_append_congr (more : rest ≠ []) (also : other ≠ [])
    (inside : takesWhole rest = false) (within : takesWhole other = false)
    (same : node.Along (fun value => value.project? rest = value.project? other) front) :
    node.project? (front ++ rest) = node.project? (front ++ other) := by
  induction front generalizing node with
  | nil => exact same
  | cons token front ih =>
    cases token with
    | name text =>
      refine project?_name_congr (takesWhole_append more inside front)
        (takesWhole_append also within front) ?_
      exact fun m member selects => ih (same m member selects)
    | index wanted =>
      refine project?_index_congr (List.append_ne_nil_of_right_ne_nil front more)
        (List.append_ne_nil_of_right_ne_nil front also) ?_
      exact fun slot held selects => ih (same slot held selects)

/-! ### `**` at the end -/

/-- After a name `**` takes what the name takes. -/
theorem project?_name_recursive (node : Node) (text : String) :
    node.project? [.name text, .name "**"] = node.project? [.name text] := by
  cases listed : node.allMembers? with
  | none => rw [project?_name_of_closed listed, project?_name_of_closed listed]
  | some ms =>
    rw [project?_name_of_allMembers listed, project?_name_of_allMembers listed]
    rfl

/-- Where all slots are null a list is what its slots are; an array of nulls is flat. -/
theorem eq_list_of_nulls {element : ElementKind} {slots : List Node}
    (opened : node.slots? = some (element, slots)) (apart : node.isFlat = false)
    (nulls : ∀ slot ∈ slots, slot.isNull = true) : node = .list element slots := by
  cases node with
  | list kind items =>
    cases opened
    rfl
  | blob json =>
    cases json with
    | array items =>
      cases opened
      have flat : isFlat (.blob (.array items)) = true := by
        refine List.all_eq_true.mpr fun item held => ?_
        have null := nulls item.slot (List.mem_map_of_mem held)
        rw [isNull_slot] at null
        cases item <;> first | rfl | cases null
      rw [flat] at apart
      cases apart
    | _ => cases opened
  | _ => cases opened

/-- After an index it takes nothing away from a list that is copied whole, nor from one of which only
nulls are selected. -/
theorem project?_index_recursive
    (kept : node.isFlat = true ∨ node.Along (·.isNull = true) [.index wanted]) :
    node.project? [.index wanted, .name "**"] = node.project? [.index wanted] := by
  cases opened : node.slots? with
  | none => rw [project?_index_of_closed opened, project?_index_of_closed opened]
  | some pair =>
    obtain ⟨element, slots⟩ := pair
    rw [project?_index_eq opened, project?_index_eq opened]
    refine Option.map_congr fun selected chosen => ?_
    cases flat : node.isFlat with
    | true => rfl
    | false =>
      have nulls := kept.resolve_left (by simp [flat])
      have same : slots.mapIdx (keepSlot node.placeOf selected [.name "**"]) =
          slots.mapIdx (keepSlot node.placeOf selected []) :=
        mapIdx_congr fun i slot here => keepSlot_congr chosen fun selects given => by
          have null : slot.isNull = true := nulls.slot opened here selects
          simp [null] at given
      rw [same]
      cases selected with
      | some k => rfl
      | none =>
        -- Every slot is selected, so every slot is null.
        have every (i : Nat) (slot : Node) (here : slots[i]? = some slot) : slot.isNull = true :=
          nulls.slot opened here (selectsIndex_of_selectedIndex? chosen rfl)
        have whole : node = .list element slots := eq_list_of_nulls opened flat fun slot held => by
          obtain ⟨i, here⟩ := List.mem_iff_getElem?.mp held
          exact every i slot here
        have kept : slots.mapIdx (keepSlot node.placeOf none []) = slots :=
          mapIdx_eq_self fun i slot here => keepSlot_of_isNull (every i slot here) none [] i
        rw [kept]
        exact whole.symm

/-- A name that no member has selects nothing. -/
theorem project?_name_of_lacks (lacks : node.Lacks text) (rest : List Token) :
    node.project? (.name text :: rest) = none := by
  cases listed : node.allMembers? with
  | none => exact project?_name_of_closed listed text rest
  | some ms =>
    have nothing : ms.filterMap (Member.project? (.name text) rest) = [] := by
      refine List.filterMap_eq_nil_iff.mpr fun m member => ?_
      simp [Member.project?, lacks m (by rwa [listed])]
    rw [project?_name_of_allMembers listed, nothing]
    rfl

/-- Whether a last index takes nothing apart: what it leads into is copied whole, or only nulls are
selected of it. A filter that ends in a name has no such index. -/
def EndsWhole (node : Node) (filter : List Token) : Prop :=
  ∀ wanted ∈ filter.getLast?.bind Token.index?,
    node.Along (fun value => value.isFlat = true ∨ value.Along (·.isNull = true) [.index wanted])
      filter.dropLast

instance (node : Node) (filter : List Token) : Decidable (node.EndsWhole filter) :=
  inferInstanceAs (Decidable (∀ wanted ∈ _, _))

/-- **A trailing `**` takes the whole value**, except for the items of lists that the filter takes
apart with its last token. Of these it takes what any other name takes that they do not have. -/
theorem project?_trailing {filter : List Token} (nonempty : filter ≠ [])
    (last : filter.getLast nonempty ≠ .name "**") (node : Node) :
    (node.EndsWhole filter →
      node.project? (filter ++ [.name "**"]) = node.project? filter) ∧
    ∀ front wanted text, filter = front ++ [.index wanted] →
      node.Along (fun item => item.Lacks "**" ∧ item.Lacks text) filter →
        node.project? (filter ++ [.name "**"]) = node.project? (filter ++ [.name text]) := by
  constructor
  · intro whole
    obtain ⟨front, token, rfl⟩ := (List.eq_nil_or_concat filter).resolve_left nonempty
    simp only [List.concat_eq_append, List.getLast_append_singleton, EndsWhole, List.getLast?_concat,
      Option.bind_some, List.dropLast_concat] at last whole ⊢
    rw [List.append_assoc]
    cases token with
    | name text =>
      have ends : takesWhole [.name text] = false := by
        simpa [takesWhole] using last
      refine project?_append_congr (List.cons_ne_nil _ _) (List.cons_ne_nil _ _) rfl ends ?_
      exact Along.of_forall fun value => value.project?_name_recursive text
    | index wanted =>
      refine project?_append_congr (List.cons_ne_nil _ _) (List.cons_ne_nil _ _) rfl rfl ?_
      exact (whole wanted rfl).mono fun value => project?_index_recursive
  · rintro front wanted text rfl lacks
    rw [List.append_assoc, List.append_assoc]
    refine project?_append_congr (List.cons_ne_nil _ _) (List.cons_ne_nil _ _) rfl rfl ?_
    refine (along_append.mp lacks).mono fun value inside => ?_
    refine project?_index_congr (List.cons_ne_nil _ _) (List.cons_ne_nil _ _) ?_
    refine inside.mono fun item absent => ?_
    obtain ⟨recursive, other⟩ := absent
    exact (project?_name_of_lacks recursive []).trans (project?_name_of_lacks other []).symm

/-- An axis with drivers. -/
def drivenAxis : Node :=
  .map [("axes", .list (.structured Machine.axis)
    [.map [("letter", .string "X"), ("drivers", .list .scalar [.string "0.0"])]])]

/-- The drivers are values; the axis is taken apart, and has no member called `size`. -/
theorem project?_trailing_of_drivers :
    let drivers : List Token := [.name "axes", .index 0, .name "drivers", .index (-1)]
    let axes : List Token := [.name "axes", .index (-1)]
    drivers.getLast (List.cons_ne_nil _ _) ≠ .name "**" ∧
      axes.getLast (List.cons_ne_nil _ _) ≠ .name "**" ∧ drivenAxis.EndsWhole drivers ∧
      drivenAxis.Along (fun item => item.Lacks "**" ∧ item.Lacks "size") axes ∧
      drivenAxis.project? (drivers ++ [.name "**"]) = drivenAxis.project? drivers ∧
      drivenAxis.project? (axes ++ [.name "**"]) = drivenAxis.project? (axes ++ [.name "size"]) := by
  intro drivers axes
  have named : drivers.getLast (List.cons_ne_nil _ _) ≠ .name "**" := by decide
  have indexed : axes.getLast (List.cons_ne_nil _ _) ≠ .name "**" := by decide
  have whole : drivenAxis.EndsWhole drivers := by
    decide
  have lacks : drivenAxis.Along (fun item => item.Lacks "**" ∧ item.Lacks "size") axes := by decide
  exact ⟨named, indexed, whole, lacks,
    (project?_trailing (List.cons_ne_nil _ _) named drivenAxis).1 whole,
    (project?_trailing (List.cons_ne_nil _ _) indexed drivenAxis).2 [.name "axes"] (-1) "size" rfl
      lacks⟩

/-- A client that asks for all of every axis gets an empty object for each. -/
theorem axes_lost_after_index :
    let root := (WriteSession.applyAll { store := Store.blank }
      [.set [.member "move", .member "axes"] (Machine.axis.newList 1)]).1.store.root
    let axes : List Token := [.name "move", .name "axes", .index (-1)]
    Token.parse .path "move/axes[*]/**" = .ok (axes ++ [.name "**"]) ∧
      root.project? (axes ++ [.name "**"]) =
        some (.map [("move", .map [("axes", .list (.structured Machine.axis) [.emptyMap])])]) ∧
      root.project? (axes ++ [.name "**"]) ≠ root.project? axes := by
  intro root axes
  refine ⟨by rfl, by rfl, fun same => ?_⟩
  have texts := congrArg (Option.map Node.text) same
  exact absurd texts (by decide +kernel)

end Node

end ModelFeed
