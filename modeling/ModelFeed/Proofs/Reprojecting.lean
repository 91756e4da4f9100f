import ModelFeed.Machine
import ModelFeed.Proofs.Projecting
/-!
# Projecting a projection

A projection is of another make than the model: what was a structured node or an object is a map, an
array that was taken apart is a list of scalars, and slots that were left out hold placeholders. So
the same filter goes other ways through it than through the model. Yet it finds everything that is
there selected, and what it leaves out is left out already.

Two observations carry the proof. The members that a name kept are the ones that it keeps again, and
each of them is whole or, by induction, its own projection. And a slot of a list that was taken apart
is null, a placeholder, or again its own projection; that the list of an array is one of scalars now
only means that it is not taken apart a second time.
-/

namespace ModelFeed.Node

variable {node part slot : Node} {element : ElementKind} {text : String} {wanted : Int}
  {tokens rest : List Token}

theorem isNull_of_slots {slots : List Node} (opened : node.slots? = some (element, slots)) :
    node.isNull = false := by
  cases node <;> first | rfl | cases opened

/-- Null is no projection of anything. -/
theorem isNull_of_project? (h : node.project? tokens = some part) : part.isNull = false := by
  cases tokens with
  | nil => simp [project?] at h
  | cons token rest =>
    cases token with
    | name text =>
      obtain ⟨ms, listed⟩ := allMembers?_of_project? h
      rw [project?_name_of_allMembers listed] at h
      obtain ⟨-, rfl⟩ := selectedMembers?_eq_some h
      rfl
    | index wanted =>
      obtain ⟨⟨element, slots⟩, opened⟩ := slots?_of_project? h
      rw [project?_index_eq opened] at h
      obtain ⟨selected, -, rfl⟩ := Option.map_eq_some_iff.mp h
      split
      · exact isNull_of_slots opened
      · rfl

/-! ### Members -/

/-- A map of which every entry is kept is its own projection. -/
theorem project?_map_eq_self {entries : Entries Node} (nonempty : entries ≠ [])
    (distinct : (Entries.keys entries).Nodup)
    (kept : ∀ entry ∈ entries, (Member.ofEntry entry).project? (.name text) rest = some entry) :
    (map entries).project? (.name text :: rest) = some (.map entries) := by
  have all : (entries.map Member.ofEntry).filterMap (Member.project? (.name text) rest) =
      entries := by
    rw [List.filterMap_map]
    calc entries.filterMap (Member.project? (.name text) rest ∘ Member.ofEntry)
        = entries.filterMap some := List.filterMap_congr kept
      _ = entries := List.filterMap_some
  obtain ⟨entry, held⟩ := List.exists_mem_of_ne_nil entries nonempty
  rw [project?_name rfl, all, selectedMembers?_of_mem distinct held]

/-- What a name keeps of a member it keeps of the entry that the member becomes. -/
theorem project?_ofEntry_of_kept {m : Member} {entry : String × Node}
    (kept : m.project? (.name text) rest = some entry)
    (again : ∀ value part : Node, value.project? rest = some part → part.project? rest = some part) :
    (Member.ofEntry entry).project? (.name text) rest = some entry := by
  obtain ⟨key, value⟩ := entry
  obtain ⟨selects, same, content⟩ := Member.project?_eq_some kept
  dsimp only at same content
  subst same
  rcases content with ⟨whole, -⟩ | ⟨inside, -, found⟩
  · exact Member.project?_whole selects whole
  · exact Member.project?_inside selects inside rfl (again _ _ found)

/-! ### Slots -/

/-- A placeholder has nothing to select, and an empty list is all there is of it. -/
theorem project?_placeholder (element : ElementKind) (rest : List Token) :
    ((placeholder element).project? rest).getD (placeholder element) = placeholder element := by
  cases rest with
  | nil => simp [project?]
  | cons token rest =>
    cases token with
    | name text => cases element <;> simp [placeholder, emptyMap, project?, selectedMembers?]
    | index wanted =>
      cases element with
      | list =>
        simp only [placeholder, project?_index, List.length_nil]
        cases selectedIndex? wanted 0 <;> rfl
      | _ => simp [placeholder, emptyMap, project?]

theorem isNull_placeholder (element : ElementKind) : (placeholder element).isNull = false := by
  cases element <;> rfl

/-- What is left of a slot is left of it a second time. -/
theorem keepSlot_keepSlot (selected : Option Nat) (i : Nat)
    (again : ∀ part, slot.project? rest = some part → part.project? rest = some part) :
    keepSlot (fun _ => placeholder element) selected rest i
        (keepSlot (fun _ => placeholder element) selected rest i slot) =
      keepSlot (fun _ => placeholder element) selected rest i slot := by
  -- What was left out once stays out, as the placeholder is empty itself.
  have empty : keepSlot (fun _ => placeholder element) selected rest i (placeholder element) =
      placeholder element := by
    simp [keepSlot, isNull_placeholder, project?_placeholder]
  by_cases null : slot.isNull = true
  · rw [keepSlot_of_isNull null, keepSlot_of_isNull null]
  by_cases other : selected.any (· != i) = true
  · have left : keepSlot (fun _ => placeholder element) selected rest i slot =
        placeholder element := by simp [keepSlot, null, other]
    rw [left, empty]
  by_cases ended : rest.isEmpty = true
  · simp [keepSlot, null, other, ended]
  cases found : slot.project? rest with
  | none =>
    have left : keepSlot (fun _ => placeholder element) selected rest i slot =
        placeholder element := by simp [keepSlot, null, other, ended, found]
    rw [left, empty]
  | some part =>
    simp [keepSlot, null, other, ended, found, isNull_of_project? found, again part found]

/-- Only lists are of another kind than scalars, and they say what stands for their items. -/
theorem placeOf_of_container {slots : List Node} (opened : node.slots? = some (element, slots))
    (container : element.isContainer = true) : node.placeOf = fun _ => placeholder element := by
  cases node with
  | list kind items =>
    cases opened
    rfl
  | blob json =>
    cases json with
    | array items =>
      cases opened
      cases container
    | _ => cases opened
  | _ => cases opened

/-- A list that was taken apart is taken apart into what it is, or not at all. -/
theorem project?_list_eq_self {slots : List Node} {selected : Option Nat}
    (opened : node.slots? = some (element, slots))
    (chosen : selectedIndex? wanted slots.length = some selected)
    (again : ∀ slot part : Node, slot.project? rest = some part → part.project? rest = some part) :
    (list element (slots.mapIdx (keepSlot node.placeOf selected rest))).project?
        (.index wanted :: rest) =
      some (.list element (slots.mapIdx (keepSlot node.placeOf selected rest))) := by
  rw [project?_index_eq rfl, List.length_mapIdx, chosen, Option.map_some]
  split
  next => rfl
  next taken =>
    have container : element.isContainer = true := by
      simp only [isFlat, Bool.or_eq_true, not_or] at taken
      simpa using taken.1
    have place (items : List Node) :
        (list element items).placeOf = fun _ => placeholder element := rfl
    rw [placeOf_of_container opened container, place]
    congr 2
    refine mapIdx_eq_self fun i kept here => ?_
    rw [List.getElem?_mapIdx] at here
    obtain ⟨slot, -, rfl⟩ := Option.map_eq_some_iff.mp here
    exact keepSlot_keepSlot selected i (again slot)

/-! ### The whole projection -/

/-- **Projection is idempotent.** A projection is its own projection onto the same filter, whatever
the filter selects. -/
theorem project?_idempotent (h : node.project? tokens = some part) :
    part.project? tokens = some part := by
  induction tokens generalizing node part with
  | nil => simp [project?] at h
  | cons token rest ih =>
    have again : ∀ value part : Node, value.project? rest = some part →
        part.project? rest = some part := fun _ _ => ih
    cases token with
    | name text =>
      obtain ⟨ms, listed⟩ := allMembers?_of_project? h
      rw [project?_name_of_allMembers listed] at h
      obtain ⟨nonempty, rfl⟩ := selectedMembers?_eq_some h
      refine project?_map_eq_self (Entries.ofList_ne_nil nonempty) (Entries.nodup_keys_ofList _) ?_
      intro entry held
      -- Of members of one key only the last is there, so the entry comes from one of them.
      obtain ⟨m, -, kept⟩ := List.mem_filterMap.mp (Entries.mem_of_mem_ofList held)
      exact project?_ofEntry_of_kept kept again
    | index wanted =>
      obtain ⟨⟨element, slots⟩, opened⟩ := slots?_of_project? h
      have found := h
      rw [project?_index_eq opened] at h
      obtain ⟨selected, chosen, rfl⟩ := Option.map_eq_some_iff.mp h
      split at found
      next copied =>
        rw [if_pos copied]
        exact found
      next apart =>
        rw [if_neg apart]
        exact project?_list_eq_self opened chosen again

/-- Axes, and boxes that another part of the machine has handed over. -/
def axesAndBoxes : Node :=
  .map [("axes", .list (.structured Machine.axis) [Machine.axis.new, .null, Machine.axis.new]),
    ("boxes", .blob (.array [.object [("letter", .string "X")], .null, .array [.bool true]]))]

theorem project?_idempotent_of_letters :
    let letters : List Token := [.name "*", .index 0, .name "letter"]
    let part : Node :=
      .map [("axes", .list (.structured Machine.axis) [.map [("letter", .null)], .null, .emptyMap]),
        ("boxes", .list .scalar
          [.map [("letter", .blob (.string "X"))], .null, .list .scalar []])]
    axesAndBoxes.project? letters = some part ∧ part.project? letters = some part := by
  intro letters part
  have found : axesAndBoxes.project? letters = some part := by rfl
  exact ⟨found, project?_idempotent found⟩

end ModelFeed.Node
