import ModelFeed.Proofs.Part
import ModelFeed.Proofs.Unaffected
/-!
# Projections are parts

A projection is a part of the model it is taken of, under two conditions. The filter has an index
only after a name, as every filter does that is read from a text. And no list that the filter takes
apart is a list of lists with anything in it, or a list of structured nodes with a scalar or a list
in it: else a stand-in could not be told from a value. In a regular model there are no such lists.
-/

namespace ModelFeed

/-- Whether every index stands right after a name, given whether a name stands before. -/
def Token.indexesFollowNames (afterName : Bool) : List Token → Bool
  | [] => true
  | .name _ :: rest => indexesFollowNames true rest
  | .index _ :: rest => afterName && indexesFollowNames false rest

theorem Token.indexesFollowNames_mono {tokens : List Token} {afterName : Bool}
    (h : indexesFollowNames false tokens = true) : indexesFollowNames afterName tokens = true := by
  cases tokens with
  | nil => rfl
  | cons token rest =>
    cases token with
    | name text => exact h
    | index wanted => simp [indexesFollowNames] at h

namespace Node

/-- What a list of structured nodes may hold. -/
def isItem : Node → Bool
  | .null | .structured .. | .map _ | .blob _ => true
  | _ => false

/-- Whether a list holds what its element kind says. Lists of lists have to be empty. -/
def keepsElementKind : Node → Bool
  | .list .scalar _ => true
  | .list (.structured _) items => items.all isItem
  | .list .list items => items.isEmpty
  | _ => true

/-- A model in which stand-ins can be told from values. -/
structure Regular (node : Node) : Prop where
  distinct : node.hasDistinctKeys = true
  kinds : node.everywhere keepsElementKind = true

/-! ### The members of a node or fragment -/

/-- The members of a structured node, a map or an object. -/
def allMembers? : Node → Option (List Member)
  | .blob (.object members) => some (members.map fun member => ⟨member.1, true, .blob member.2⟩)
  | node => node.members?

theorem allMembers?_of_members {node : Node} {ms : List Member} (h : node.members? = some ms) :
    node.allMembers? = some ms := by
  cases node with
  | structured schema values => exact h
  | map entries => exact h
  | _ => cases h

theorem opened?_eq (node : Node) :
    node.opened? = node.allMembers?.map (List.map fun m => (m.key, m.value)) := by
  cases node with
  | structured schema values =>
    simp [opened?, allMembers?, members?, Member.ofField, Function.comp_def]
  | map entries => simp [opened?, allMembers?, members?, Member.ofEntry, Function.comp_def]
  | blob json => cases json <;> simp [opened?, allMembers?, members?, Function.comp_def]
  | _ => rfl

theorem opened?_of_allMembers {node : Node} {ms : List Member} (listed : node.allMembers? = some ms) :
    node.opened? = some (ms.map fun m => (m.key, m.value)) := by
  rw [opened?_eq, listed, Option.map_some]

theorem nodup_member_keys {node : Node} {ms : List Member} (distinct : node.hasDistinctKeys = true)
    (listed : node.allMembers? = some ms) : (ms.map Member.key).Nodup := by
  have opened := opened?_of_allMembers listed
  simpa [Entries.keys, Function.comp_def] using nodup_of_opened distinct opened

theorem project?_blob (tokens : List Token) (json : Json) :
    (blob json).project? tokens = json.project? tokens := by
  cases tokens with
  | nil => simp [project?, Json.project?]
  | cons token rest => cases token <;> simp [project?]

theorem project?_name_of_allMembers {node : Node} {ms : List Member}
    (h : node.allMembers? = some ms) (text : String) (rest : List Token) :
    node.project? (.name text :: rest) =
      selectedMembers? (ms.filterMap (Member.project? (.name text) rest)) := by
  cases node with
  | blob json =>
    cases json with
    | object members =>
      cases h
      rw [project?_blob, Json.project?, List.filterMap_map]
      congr 2
      funext member
      simp only [Member.project?, Function.comp, project?_blob, if_true]
    | _ => cases h
  | structured schema values =>
    have listed : (structured schema values).members? = some ms := h
    exact project?_name listed text rest
  | map entries =>
    have listed : (map entries).members? = some ms := h
    exact project?_name listed text rest
  | _ => cases h

theorem allMembers?_of_project? {node part : Node} {text : String} {rest : List Token}
    (h : node.project? (.name text :: rest) = some part) : ∃ ms, node.allMembers? = some ms := by
  cases node with
  | structured schema values => exact ⟨_, rfl⟩
  | map entries => exact ⟨_, rfl⟩
  | blob json =>
    cases json with
    | object members => exact ⟨_, rfl⟩
    | _ => simp [project?, Json.project?] at h
  | _ => simp [project?] at h

theorem hasDistinctKeys_of_member {node : Node} {ms : List Member} {m : Member}
    (distinct : node.hasDistinctKeys = true) (listed : node.allMembers? = some ms)
    (member : m ∈ ms) : m.value.hasDistinctKeys = true := by
  have opened := opened?_of_allMembers listed
  exact hasDistinctKeys_of_opened distinct opened (List.mem_map_of_mem member)

theorem Regular.of_member {node : Node} {ms : List Member} {m : Member} (regular : node.Regular)
    (listed : node.allMembers? = some ms) (member : m ∈ ms) : m.value.Regular := by
  constructor
  · exact hasDistinctKeys_of_member regular.distinct listed member
  · cases node with
    | blob json =>
      cases json with
      | object members =>
        cases listed
        obtain ⟨_, -, rfl⟩ := List.mem_map.mp member
        rfl
      | _ => cases listed
    | _ => exact everywhere_of_member regular.kinds listed member

/-! ### The slots of a list or array -/

/-- Whether a list or array is copied whole whichever slot is selected. -/
def isFlat : Node → Bool
  | .list element _ => !element.isContainer
  | .blob (.array items) => items.all fun item => !item.isContainer
  | _ => false

/-- What a projection leaves of a slot. -/
def projectSlot (element : ElementKind) (selected : Option Nat) (rest : List Token) (i : Nat)
    (slot : Node) : Node :=
  if slot.isNull then .null
  else if selected.any (· != i) then (slot.standIn? element).getD emptyMap
  else if rest.isEmpty then slot
  else (slot.project? rest).getD ((slot.standIn? element).getD emptyMap)

variable {node : Node} {element : ElementKind} {slots : List Node}

theorem slots?_of_project? {part : Node} {wanted : Int} {rest : List Token}
    (h : node.project? (.index wanted :: rest) = some part) : ∃ slots, node.slots? = some slots := by
  cases node with
  | list element items => exact ⟨_, rfl⟩
  | blob json =>
    cases json with
    | array items => exact ⟨_, rfl⟩
    | _ => simp [project?, Json.project?] at h
  | _ => simp [project?] at h

theorem isNull_slot (json : Json) : json.slot.isNull = json.isNull := by
  cases json <;> rfl

theorem projectSlot_slot (selected : Option Nat) (rest : List Token) (i : Nat) (item : Json) :
    projectSlot .scalar selected rest i item.slot =
      if item.isNull then .null
      else if selected.any (· != i) then item.placeholder
      else if rest.isEmpty then .blob item
      else (item.project? rest).getD item.placeholder := by
  unfold projectSlot
  rw [isNull_slot]
  by_cases null : item.isNull = true
  · rw [if_pos null, if_pos null]
  · have fragment : item.slot = .blob item := by cases item <;> first | rfl | exact absurd rfl null
    rw [fragment, project?_blob]
    rfl

theorem mapIdx_congr {α β : Type} {f g : Nat → α → β} {list : List α}
    (h : ∀ i a, list[i]? = some a → f i a = g i a) : list.mapIdx f = list.mapIdx g :=
  List.mapIdx_eq_mapIdx_iff.mpr fun i inside => h i _ (List.getElem?_eq_getElem inside)

theorem mapIdx_eq_self {α : Type} {f : Nat → α → α} {list : List α}
    (h : ∀ i a, list[i]? = some a → f i a = a) : list.mapIdx f = list :=
  (mapIdx_congr h).trans (by simp [List.mapIdx_eq_zipIdx_map])

/-- What stands for a slot that is left out: the element kind says for a list, the slot itself for an
array. -/
def placeOf : Node → Node → Node
  | .list element _, _ => placeholder element
  | _, slot => (slot.standIn? .scalar).getD emptyMap

/-- What is left of a slot of a list or array that is taken apart. -/
def keepSlot (place : Node → Node) (selected : Option Nat) (rest : List Token) (i : Nat)
    (slot : Node) : Node :=
  if slot.isNull then .null
  else if selected.any (· != i) then place slot
  else if rest.isEmpty then slot
  else (slot.project? rest).getD (place slot)

theorem keepSlot_of_isNull {place : Node → Node} {slot : Node} (null : slot.isNull = true)
    (selected : Option Nat) (rest : List Token) (i : Nat) :
    keepSlot place selected rest i slot = slot := by
  rw [keepSlot, if_pos null]
  cases slot <;> first | rfl | cases null

/-- One rule for lists and arrays. -/
theorem project?_index_eq (opened : node.slots? = some (element, slots)) (wanted : Int)
    (rest : List Token) :
    node.project? (.index wanted :: rest) =
      (selectedIndex? wanted slots.length).map fun selected =>
        if node.isFlat || selected.isNone && rest.isEmpty then node
        else .list element (slots.mapIdx (keepSlot node.placeOf selected rest)) := by
  cases node with
  | list kind items =>
    cases opened
    exact project?_index element slots wanted rest
  | blob json =>
    cases json with
    | array items =>
      cases opened
      -- An array is read as the list of its slots.
      rw [project?_blob, Json.project?, List.length_map]
      cases selectedIndex? wanted items.length with
      | none => rfl
      | some selected =>
        have same : (items.map Json.slot).mapIdx (projectSlot .scalar selected rest) =
            items.mapIdx fun i item => projectSlot .scalar selected rest i item.slot := by
          apply List.ext_getElem?
          intro i
          simp [List.getElem?_mapIdx, Function.comp_def]
        have rule : keepSlot (placeOf (.blob (.array items))) selected rest =
            projectSlot .scalar selected rest := rfl
        simp only [rule, same, projectSlot_slot, Option.map_some, isFlat]
        split <;> rfl
    | _ => cases opened
  | _ => cases opened

/-- What a filter leaves out of a slot can be told from anything else in it. -/
def isLeavable (element : ElementKind) (slot : Node) : Bool :=
  slot.isNull || (slot.standIn? element).isSome

theorem isLeavable_iff {slot : Node} : slot.isLeavable element = true ↔
    slot = .null ∨ ∃ item, slot.standIn? element = some item := by
  rw [isLeavable, Bool.or_eq_true, Option.isSome_iff_exists]
  refine or_congr_left ?_
  cases slot <;> simp [isNull]

/-- A slot that may be left out of a list has a stand-in of its own. -/
theorem keepSlot_of_isLeavable (opened : node.slots? = some (element, slots))
    (apart : node.isFlat = false) {slot : Node} (may : slot.isLeavable element = true)
    (selected : Option Nat) (rest : List Token) (i : Nat) :
    keepSlot node.placeOf selected rest i slot = projectSlot element selected rest i slot := by
  cases node with
  | list kind items =>
    cases opened
    cases element with
    | scalar => cases apart
    | list =>
      cases slot with
      | null => rfl
      | _ => cases may
    | structured schema => cases slot <;> rfl
  | blob json =>
    cases json with
    | array items =>
      cases opened
      rfl
    | _ => cases opened
  | _ => cases opened

/-- The rule in terms of stand-ins, as far as the slots may be left out of a list taken apart. -/
theorem project?_index_of_slots (opened : node.slots? = some (element, slots)) {wanted : Int}
    {rest : List Token} (leavable : ∀ selected, selectedIndex? wanted slots.length = some selected →
      (node.isFlat || selected.isNone && rest.isEmpty) = false →
        ∀ slot ∈ slots, slot.isLeavable element = true) :
    node.project? (.index wanted :: rest) =
      (selectedIndex? wanted slots.length).map fun selected =>
        if node.isFlat || selected.isNone && rest.isEmpty then node
        else .list element (slots.mapIdx (projectSlot element selected rest)) := by
  rw [project?_index_eq opened]
  cases chosen : selectedIndex? wanted slots.length with
  | none => rfl
  | some selected =>
    rw [Option.map_some, Option.map_some]
    cases copied : node.isFlat || selected.isNone && rest.isEmpty with
    | true => rfl
    | false =>
      have apart := (Bool.or_eq_false_iff.mp copied).1
      simp only [Bool.false_eq_true, if_false]
      rw [mapIdx_congr fun i slot here => keepSlot_of_isLeavable opened apart
        (leavable selected chosen copied slot (List.mem_of_getElem? here)) selected rest i]

/-- In a slot that is not copied whole there is null or something that can be left out. -/
theorem Regular.isLeavable {slot : Node} (regular : node.Regular)
    (opened : node.slots? = some (element, slots)) (apart : node.isFlat = false)
    (held : slot ∈ slots) : slot.isLeavable element = true := by
  cases node with
  | list kind items =>
    cases opened
    have kept : (list element slots).keepsElementKind = true := here_of_everywhere regular.kinds
    cases element with
    | scalar => simp [isFlat, ElementKind.isContainer] at apart
    | list =>
      obtain rfl := List.isEmpty_iff.mp kept
      simp at held
    | structured schema =>
      -- A list of structures holds only what can be named into, and nulls.
      have item := List.all_eq_true.mp kept slot held
      cases slot <;> first | rfl | cases item
  | blob json =>
    cases json with
    | array items =>
      cases opened
      obtain ⟨item, -, rfl⟩ := List.mem_map.mp held
      cases item <;> rfl
    | _ => cases opened
  | _ => cases opened

theorem Regular.of_slot {slot : Node} (regular : node.Regular)
    (opened : node.slots? = some (element, slots)) (held : slot ∈ slots) : slot.Regular := by
  refine ⟨hasDistinctKeys_of_slots regular.distinct opened held, ?_⟩
  cases node with
  | list kind items =>
    cases opened
    exact (everywhere_list.mp regular.kinds).2 slot held
  | blob json =>
    cases json with
    | array items =>
      cases opened
      obtain ⟨item, -, rfl⟩ := List.mem_map.mp held
      cases item <;> rfl
    | _ => cases opened
  | _ => cases opened

theorem projectSlot_of_standIn {slot item : Node} (standIn : slot.standIn? element = some item)
    (selected : Option Nat) (rest : List Token) (i : Nat) :
    projectSlot element selected rest i slot =
      if selected.any (· != i) then item
      else if rest.isEmpty then slot
      else (slot.project? rest).getD item := by
  have given : slot.isNull = false := by
    cases slot <;> cases element <;> first | rfl | cases standIn
  simp [projectSlot, given, standIn]

theorem slotOf_projectSlot {selected : Option Nat} {rest : List Token} {i : Nat} {slot : Node}
    (whole : slot.PartOf slot) (leavable : slot = .null ∨ ∃ item, slot.standIn? element = some item)
    (below : selected.any (· != i) = false → ∀ part, slot.project? rest = some part →
      part.PartOf slot ∧ (part.isList = true → slot.isList = true)) :
    SlotOf element (projectSlot element selected rest i slot) slot := by
  rcases leavable with rfl | ⟨item, standIn⟩
  · exact .inr ⟨whole, id⟩
  · rw [projectSlot_of_standIn standIn]
    split
    next => exact .inl standIn
    next here =>
      split
      next => exact .inr ⟨whole, id⟩
      next =>
        cases found : slot.project? rest with
        | none => exact .inl standIn
        | some part => exact .inr (below (by simpa using here) part found)

/-! ### Lists that a filter takes apart -/

/-- Whether a filter takes no list apart from which it could not leave out a slot. -/
def separatesAlong : List Token → Node → Bool
  | [], _ => true
  | .name text :: rest, node =>
    takesWhole rest || (node.allMembers?.getD []).all fun m =>
      !((Token.name text).selectsName m.key && m.isOpen) || separatesAlong rest m.value
  | .index wanted :: rest, node =>
    match node.slots? with
    | none => true
    | some (element, slots) =>
      match selectedIndex? wanted slots.length with
      | none => true
      | some selected =>
        node.isFlat || selected.isNone && rest.isEmpty || slots.zipIdx.all fun (slot, i) =>
          slot.isLeavable element && (selected.any (· != i) || separatesAlong rest slot)

theorem separatesAlong_name {ms : List Member} (listed : node.allMembers? = some ms) {text : String}
    {rest : List Token} : node.separatesAlong (.name text :: rest) = true ↔
      takesWhole rest = true ∨ ∀ m ∈ ms, (Token.name text).selectsName m.key = true →
        m.isOpen = true → m.value.separatesAlong rest = true := by
  simp only [separatesAlong, listed, Option.getD_some, Bool.or_eq_true, List.all_eq_true,
    Bool.not_eq_true', Bool.and_eq_false_iff]
  refine or_congr_right (forall_congr' fun m => forall_congr' fun _ => ?_)
  cases (Token.name text).selectsName m.key <;> cases m.isOpen <;> simp

theorem separatesAlong_index (opened : node.slots? = some (element, slots)) {wanted : Int}
    {rest : List Token} : node.separatesAlong (.index wanted :: rest) = true ↔
      ∀ selected, selectedIndex? wanted slots.length = some selected →
        (node.isFlat || selected.isNone && rest.isEmpty) = false → ∀ i slot, slots[i]? = some slot →
          slot.isLeavable element = true ∧
            (selected.any (· != i) = false → slot.separatesAlong rest = true) := by
  simp only [separatesAlong, opened]
  cases chosen : selectedIndex? wanted slots.length with
  | none => simp
  | some selected =>
    simp only [Option.some.injEq, forall_eq']
    cases node.isFlat || selected.isNone && rest.isEmpty with
    | true => simp
    | false =>
      simp only [Bool.false_or, List.all_eq_true, Prod.forall, List.mk_mem_zipIdx_iff_getElem?,
        Bool.and_eq_true, Bool.or_eq_true, forall_const]
      rw [forall_comm]
      simp only [or_iff_not_imp_left, Bool.not_eq_true]

theorem Regular.separatesAlong {tokens : List Token} (regular : node.Regular) :
    node.separatesAlong tokens = true := by
  induction tokens generalizing node with
  | nil => rfl
  | cons token rest ih =>
    cases token with
    | name text =>
      cases listed : node.allMembers? with
      | none => simp [Node.separatesAlong, listed]
      | some ms =>
        refine (separatesAlong_name listed).mpr (.inr fun m member _ _ => ?_)
        exact ih (regular.of_member listed member)
    | index wanted =>
      cases opened : node.slots? with
      | none => simp [Node.separatesAlong, opened]
      | some pair =>
        obtain ⟨element, slots⟩ := pair
        refine (separatesAlong_index opened).mpr fun selected _ apart i slot here => ?_
        have held := List.mem_of_getElem? here
        exact ⟨regular.isLeavable opened (Bool.or_eq_false_iff.mp apart).1 held,
          fun _ => ih (regular.of_slot opened held)⟩

end Node

/-! ### One step of a projection -/

theorem forall₂_mapIdx {α β γ : Type} {rel : β → γ → Prop} {f : Nat → α → β} {g : Nat → α → γ}
    {list : List α} (h : ∀ i a, list[i]? = some a → rel (f i a) (g i a)) :
    List.Forall₂ rel (list.mapIdx f) (list.mapIdx g) := by
  refine List.forall₂_iff_get.mpr ⟨by simp, fun i inside _ => ?_⟩
  rw [List.length_mapIdx] at inside
  simp only [List.get_eq_getElem, List.getElem_mapIdx]
  exact h i _ (List.getElem?_eq_getElem inside)

theorem forall₂_mapIdx_left {α β : Type} {rel : β → α → Prop} {f : Nat → α → β} {list : List α}
    (h : ∀ i a, list[i]? = some a → rel (f i a) a) : List.Forall₂ rel (list.mapIdx f) list := by
  have pairs := forall₂_mapIdx (g := fun _ a => a) h
  rwa [Node.mapIdx_eq_self fun _ _ _ => rfl] at pairs

theorem Member.project?_eq_some {token : Token} {rest : List Token} {m : Member}
    {pair : String × Node} (h : m.project? token rest = some pair) :
    token.selectsName m.key = true ∧ pair.1 = m.key ∧
      (takesWhole rest = true ∧ pair.2 = m.value ∨
        takesWhole rest = false ∧ m.isOpen = true ∧ m.value.project? rest = some pair.2) := by
  unfold project? at h
  split at h
  next => cases h
  next selects =>
    refine ⟨by simpa using selects, ?_⟩
    split at h
    next whole =>
      cases h
      exact ⟨rfl, .inl ⟨whole, rfl⟩⟩
    next inside =>
      split at h
      next isOpen =>
        obtain ⟨part, found, rfl⟩ := Option.map_eq_some_iff.mp h
        exact ⟨rfl, .inr ⟨by simpa using inside, isOpen, found⟩⟩
      next => cases h

theorem Member.project?_whole {token : Token} {rest : List Token} {m : Member}
    (selects : token.selectsName m.key = true) (whole : takesWhole rest = true) :
    m.project? token rest = some (m.key, m.value) := by
  simp [project?, selects, whole]

theorem Member.project?_inside {token : Token} {rest : List Token} {m : Member} {part : Node}
    (selects : token.selectsName m.key = true) (inside : takesWhole rest = false)
    (isOpen : m.isOpen = true) (found : m.value.project? rest = some part) :
    m.project? token rest = some (m.key, part) := by
  simp [project?, selects, inside, isOpen, found]

theorem selectedMembers?_eq_some {members : List (String × Node)} {part : Node}
    (h : selectedMembers? members = some part) :
    members ≠ [] ∧ part = .map (Entries.ofList members) := by
  cases members with
  | nil => cases h
  | cons member members =>
    cases h
    exact ⟨List.cons_ne_nil _ _, rfl⟩

theorem selectedMembers?_of_mem {members : List (String × Node)} {member : String × Node}
    (once : (Entries.keys members).Nodup) (held : member ∈ members) :
    selectedMembers? members = some (.map members) := by
  cases members with
  | nil => simp at held
  | cons first members => simp [selectedMembers?, Entries.ofList_eq_self once]

namespace Node

/-- A selection of members is a map of them, and of what is kept of a member it has what the
selection makes of the value. -/
theorem exists_entries_of_selected {rel : Node → Node → Prop} {node part : Node} {ms : List Member}
    (distinct : node.hasDistinctKeys = true) (listed : node.allMembers? = some ms)
    {select : Member → Option (String × Node)}
    (keys : ∀ m pair, select m = some pair → pair.1 = m.key)
    (parts : ∀ m ∈ ms, ∀ pair, select m = some pair → rel pair.2 m.value)
    (h : selectedMembers? (ms.filterMap select) = some part) :
    ∃ entries named, part = .map entries ∧ (Entries.keys entries).Nodup ∧
      node.opened? = some named ∧ ∀ key value, Entries.get? key entries = some value →
        ∃ other, Entries.get? key named = some other ∧ rel value other := by
  have opened := opened?_of_allMembers listed
  have apart := nodup_of_opened distinct opened
  have once : (Entries.keys (ms.filterMap select)).Nodup :=
    Entries.nodup_keys_filterMap keys (nodup_member_keys distinct listed)
  obtain ⟨-, rfl⟩ := selectedMembers?_eq_some h
  rw [Entries.ofList_eq_self once]
  refine ⟨_, _, rfl, once, opened, fun key value found => ?_⟩
  obtain ⟨m, member, selected⟩ := List.mem_filterMap.mp (Entries.mem_of_get? found)
  obtain rfl := keys m _ selected
  exact ⟨m.value, Entries.get?_of_mem apart (List.mem_map.mpr ⟨m, member, rfl⟩),
    parts m member _ selected⟩

/-- **A projection is a part of the model**, and a map if its filter starts with a name. -/
theorem project?_partOf_of_separates {tokens : List Token} {afterName : Bool} {node part : Node}
    (placed : Token.indexesFollowNames afterName tokens = true)
    (distinct : node.hasDistinctKeys = true) (separates : node.separatesAlong tokens = true)
    (h : node.project? tokens = some part) :
    part.PartOf node ∧ (afterName = false → ∃ entries, part = .map entries) := by
  induction tokens generalizing afterName node part with
  | nil => simp [project?] at h
  | cons token rest ih =>
    cases token with
    | name text =>
      obtain ⟨ms, listed⟩ := allMembers?_of_project? h
      rw [project?_name_of_allMembers listed] at h
      have separates := (separatesAlong_name listed).mp separates
      -- Each member comes whole or as a projection of its value.
      have parts : ∀ m ∈ ms, ∀ pair, m.project? (.name text) rest = some pair →
          pair.2.PartOf m.value := by
        intro m member pair selected
        have inside := hasDistinctKeys_of_member distinct listed member
        obtain ⟨selects, -, ⟨-, whole⟩ | ⟨partly, isOpen, found⟩⟩ := Member.project?_eq_some selected
        · rw [whole]
          exact .refl inside
        · have below := separates.resolve_left (by simp [partly]) m member selects isOpen
          exact (ih placed inside below found).1
      obtain ⟨entries, named, rfl, once, opened, values⟩ := exists_entries_of_selected distinct
        listed (fun m pair selected => (Member.project?_eq_some selected).2.1) parts h
      exact ⟨(partOf_map_of_opened opened).mpr ⟨once, values⟩, fun _ => ⟨entries, rfl⟩⟩
    | index wanted =>
      obtain ⟨⟨element, slots⟩, opened⟩ := slots?_of_project? h
      simp only [Token.indexesFollowNames, Bool.and_eq_true] at placed
      obtain ⟨rfl, placed⟩ := placed
      have separates := (separatesAlong_index opened).mp separates
      -- An index does not come first, so a map need not come out.
      refine ⟨?_, fun impossible => by cases impossible⟩
      rw [project?_index_of_slots opened fun selected chosen apart slot held => by
        obtain ⟨i, here⟩ := List.mem_iff_getElem?.mp held
        exact (separates selected chosen apart i slot here).1] at h
      obtain ⟨selected, chosen, rfl⟩ := Option.map_eq_some_iff.mp h
      split
      next => exact .refl distinct
      next copied =>
        refine (partOf_list_of_slots opened).mpr (forall₂_mapIdx_left fun i slot here => ?_)
        have inside := hasDistinctKeys_of_slots distinct opened (List.mem_of_getElem? here)
        obtain ⟨leavable, below⟩ := separates selected chosen (by simpa using copied) i slot here
        refine slotOf_projectSlot (.refl inside) (isLeavable_iff.mp leavable) ?_
        -- What follows an index starts with a name, so it leaves a map and never a list.
        intro selects part found
        obtain ⟨below, named⟩ := ih placed inside (below selects) found
        obtain ⟨entries, rfl⟩ := named rfl
        exact ⟨below, fun list => by cases list⟩

theorem project?_partOf {tokens : List Token} {afterName : Bool} {node part : Node}
    (placed : Token.indexesFollowNames afterName tokens = true) (regular : node.Regular)
    (h : node.project? tokens = some part) :
    part.PartOf node ∧ (afterName = false → ∃ entries, part = .map entries) :=
  project?_partOf_of_separates placed regular.distinct regular.separatesAlong h

end Node

end ModelFeed
