import Mathlib.Data.List.Forall2
import ModelFeed.Proofs.Keys
/-!
# Parts of a model

What a client gets is a part of the model: objects with some of their members and lists with
stand-ins in some of their slots, down to values that are copied whole. A structured node or a
fragment of which only some members are copied becomes a map, an array of which only some items are
copied becomes a list.

`Node.PartOf` is this order. Projections are parts of the model they are taken of, and merging, which
is not an order theoretic operation at all on arbitrary nodes, is the join of two parts of one model.
-/

namespace ModelFeed

theorem forall₂_getElem? {α β : Type} {rel : α → β → Prop} {as : List α} {bs : List β}
    (h : List.Forall₂ rel as bs) {i : Nat} {a : α} (found : as[i]? = some a) :
    ∃ b, bs[i]? = some b ∧ rel a b := by
  obtain ⟨inside, rfl⟩ := List.getElem?_eq_some_iff.mp found
  have insideB : i < bs.length := h.length_eq ▸ inside
  exact ⟨bs[i], List.getElem?_eq_getElem insideB, h.get inside insideB⟩

namespace Node

/-- Whether a node is never copied in part as what it is. -/
def isAtomic : Node → Bool
  | .list .. | .map _ => false
  | _ => true

def isList (node : Node) : Bool :=
  node.items?.isSome

/-- What stands in a slot for a value that is left out. Nothing does for a scalar, as a list that
holds one is copied whole, and lists of lists are left out of account. -/
def standIn? : ElementKind → Node → Option Node
  | .list, _ => none
  | .scalar, .blob json => some json.placeholder
  | _, .structured .. | _, .map _ | _, .blob _ => some emptyMap
  | _, _ => none

mutual

/-- Whether a node is a partial copy of another. -/
def PartOf : Node → Node → Prop
  | .map entries, whole =>
    (Entries.keys entries).Nodup ∧
      ∃ named, whole.opened? = some named ∧ entriesPartOf entries named
  | .list element items, whole =>
    ∃ slots, whole.slots? = some (element, slots) ∧ itemsPartOf element items slots
  | node, whole => node = whole

def entriesPartOf : List (String × Node) → Entries Node → Prop
  | [], _ => True
  | (key, value) :: entries, named =>
    (∃ other, Entries.get? key named = some other ∧ value.PartOf other) ∧
      entriesPartOf entries named

def itemsPartOf (element : ElementKind) : List Node → List Node → Prop
  | [], [] => True
  | item :: items, slot :: slots =>
    (slot.standIn? element = some item ∨
      item.PartOf slot ∧ (item.isList = true → slot.isList = true)) ∧
      itemsPartOf element items slots
  | _, _ => False

end

/-- A slot of a partial copy against the slot it is a copy of. Lists do not stand for arrays here,
so that a stand-in cannot be taken for one. -/
def SlotOf (element : ElementKind) (item slot : Node) : Prop :=
  slot.standIn? element = some item ∨
    item.PartOf slot ∧ (item.isList = true → slot.isList = true)

theorem partOf_atomic {node whole : Node} (atomic : node.isAtomic = true) :
    node.PartOf whole ↔ node = whole := by
  cases node <;> simp_all [isAtomic, PartOf]

theorem entriesPartOf_iff {entries : List (String × Node)} {named : Entries Node} :
    entriesPartOf entries named ↔
      ∀ entry ∈ entries, ∃ other, Entries.get? entry.1 named = some other ∧
        entry.2.PartOf other := by
  induction entries with
  | nil => simp [entriesPartOf]
  | cons entry entries ih =>
    obtain ⟨key, value⟩ := entry
    simp only [entriesPartOf, ih, List.forall_mem_cons]

theorem partOf_map {entries : List (String × Node)} {whole : Node} :
    (map entries).PartOf whole ↔
      (Entries.keys entries).Nodup ∧ ∃ named, whole.opened? = some named ∧
        ∀ key value, Entries.get? key entries = some value →
          ∃ other, Entries.get? key named = some other ∧ value.PartOf other := by
  rw [PartOf]
  refine and_congr_right fun distinct => exists_congr fun named => and_congr_right fun _ => ?_
  rw [entriesPartOf_iff]
  constructor
  · intro parts key value found
    exact parts (key, value) (Entries.mem_of_get? found)
  · rintro parts ⟨key, value⟩ member
    exact parts key value (Entries.get?_of_mem distinct member)

theorem itemsPartOf_iff {element : ElementKind} {items slots : List Node} :
    itemsPartOf element items slots ↔ List.Forall₂ (SlotOf element) items slots := by
  induction items generalizing slots with
  | nil => cases slots <;> simp [itemsPartOf]
  | cons item items ih => cases slots <;> simp [itemsPartOf, SlotOf, ih]

theorem partOf_list {element : ElementKind} {items : List Node} {whole : Node} :
    (list element items).PartOf whole ↔
      ∃ slots, whole.slots? = some (element, slots) ∧
        List.Forall₂ (SlotOf element) items slots := by
  rw [PartOf]
  simp only [itemsPartOf_iff]

/-- A map against the named values of what it is a part of. -/
theorem partOf_map_of_opened {entries : List (String × Node)} {whole : Node} {named : Entries Node}
    (opened : whole.opened? = some named) :
    (map entries).PartOf whole ↔
      (Entries.keys entries).Nodup ∧ ∀ key value, Entries.get? key entries = some value →
        ∃ other, Entries.get? key named = some other ∧ value.PartOf other := by
  simp [partOf_map, opened]

theorem partOf_list_of_slots {element : ElementKind} {items slots : List Node} {whole : Node}
    (opened : whole.slots? = some (element, slots)) :
    (list element items).PartOf whole ↔ List.Forall₂ (SlotOf element) items slots := by
  simp [partOf_list, opened]

theorem keys_subset_of_parts {entries named : Entries Node}
    (parts : ∀ key value, Entries.get? key entries = some value →
      ∃ other, Entries.get? key named = some other ∧ value.PartOf other) :
    Entries.keys entries ⊆ Entries.keys named := by
  intro key held
  obtain ⟨value, found⟩ :=
    Option.isSome_iff_exists.mp ((Entries.get?_isSome_iff key entries).mpr held)
  obtain ⟨other, foundOther, -⟩ := parts key value found
  exact Entries.mem_keys_of_mem (Entries.mem_of_get? foundOther)

theorem emptyMap_partOf {whole : Node} {named : Entries Node} (opened : whole.opened? = some named) :
    emptyMap.PartOf whole :=
  partOf_map.mpr ⟨List.nodup_nil, named, opened, fun key value found => by simp at found⟩

/-! ### Stand-ins -/

@[simp] theorem standIn?_list {element kind : ElementKind} {items : List Node} :
    (list kind items).standIn? element = none := by
  cases element <;> rfl

theorem standIn?_eq_some {element : ElementKind} {whole item : Node}
    (h : whole.standIn? element = some item) :
    item = emptyMap ∨ item = .placeholder .list ∧ whole.isAtomic = true := by
  cases element with
  | list => simp [standIn?] at h
  | structured schema => cases whole <;> simp_all [standIn?]
  | scalar =>
    cases whole with
    | blob json =>
      cases json with
      | array items =>
        cases h
        exact .inr ⟨rfl, rfl⟩
      | _ =>
        cases h
        exact .inl rfl
    | _ => simp_all [standIn?]

/-- Of a stand-in there is no smaller part. -/
theorem eq_of_partOf_standIn {element : ElementKind} {node item whole : Node}
    (standIn : whole.standIn? element = some item) (part : node.PartOf item) : node = item := by
  -- A stand-in is an empty map or an empty list, and neither has parts but itself.
  rcases standIn?_eq_some standIn with rfl | ⟨rfl, -⟩
  · cases node with
    | map entries =>
      obtain ⟨-, named, opened, parts⟩ := partOf_map.mp part
      cases opened
      cases entries with
      | nil => rfl
      | cons entry entries =>
        obtain ⟨key, value⟩ := entry
        obtain ⟨other, found, -⟩ := parts key value (by simp [Entries.get?_cons])
        simp at found
    | list element items =>
      obtain ⟨slots, opened, -⟩ := partOf_list.mp part
      cases opened
    | _ => exact (partOf_atomic rfl).mp part
  · cases node with
    | map entries =>
      obtain ⟨-, named, opened, -⟩ := partOf_map.mp part
      cases opened
    | list element items =>
      obtain ⟨slots, opened, below⟩ := partOf_list.mp part
      cases opened
      cases below
      rfl
    | _ => exact (partOf_atomic rfl).mp part

theorem standIn_partOf_self {element : ElementKind} {item whole : Node}
    (standIn : whole.standIn? element = some item) : item.PartOf item := by
  rcases standIn?_eq_some standIn with rfl | ⟨rfl, -⟩
  · exact emptyMap_partOf rfl
  · exact partOf_list.mpr ⟨[], rfl, .nil⟩

theorem standIn_slotOf_self {element : ElementKind} {item whole : Node}
    (standIn : whole.standIn? element = some item) : SlotOf element item item :=
  .inr ⟨standIn_partOf_self standIn, id⟩

/-- A partial copy has the stand-in of what it is a copy of. -/
theorem standIn?_of_partOf {part whole : Node} (below : part.PartOf whole)
    (shape : part.isList = true → whole.isList = true) (element : ElementKind) :
    part.standIn? element = whole.standIn? element := by
  cases part with
  | list kind items =>
    cases whole with
    | list kind items => rw [standIn?_list, standIn?_list]
    | _ => simp [isList, items?] at shape
  | map entries =>
    obtain ⟨-, named, opened, -⟩ := partOf_map.mp below
    cases whole with
    | blob json => cases json <;> cases element <;> first | rfl | cases opened
    | _ => cases element <;> first | rfl | cases opened
  | _ =>
    obtain rfl := (partOf_atomic rfl).mp below
    rfl

theorem standIn_of_standIn {element : ElementKind} {item slot whole : Node}
    (outer : whole.standIn? element = some slot) (inner : slot.standIn? element = some item) :
    item = slot := by
  rcases standIn?_eq_some outer with rfl | ⟨rfl, -⟩
  · cases element <;> cases inner <;> rfl
  · simp [placeholder] at inner

/-! ### The order -/

/-- Induction over what is copied in part. -/
theorem copyInduction {motive : Node → Prop}
    (atomic : ∀ node, node.isAtomic = true → motive node)
    (map : ∀ entries, (∀ entry ∈ entries, motive entry.2) → motive (.map entries))
    (list : ∀ element items, (∀ item ∈ items, motive item) → motive (.list element items)) :
    ∀ node, motive node := by
  intro node
  induction node using inductionOn with
  | scalar node leaf =>
    exact atomic node (by cases node <;> simp_all [isScalar, isAtomic])
  | structured schema values => exact atomic _ rfl
  | blob json => exact atomic _ rfl
  | map entries ih => exact map entries ih
  | list element items ih => exact list element items ih

theorem PartOf.refl {node : Node} (distinct : node.hasDistinctKeys = true) : node.PartOf node := by
  induction node using copyInduction with
  | atomic node atomic => exact (partOf_atomic atomic).mpr rfl
  | map entries ih =>
    refine (partOf_map_of_opened rfl).mpr
      ⟨nodup_of_opened distinct rfl, fun key value found => ?_⟩
    have member := Entries.mem_of_get? found
    exact ⟨value, found, ih (key, value) member (hasDistinctKeys_of_opened distinct rfl member)⟩
  | list element items ih =>
    refine (partOf_list_of_slots rfl).mpr (List.forall₂_same.mpr fun item member => .inr ⟨?_, id⟩)
    exact ih item member (hasDistinctKeys_of_slots distinct rfl member)

/-- What is part of anything is part of itself. -/
theorem PartOf.left_refl {part whole : Node} (h : part.PartOf whole) : part.PartOf part := by
  induction part using copyInduction generalizing whole with
  | atomic node atomic => exact (partOf_atomic atomic).mpr rfl
  | map entries ih =>
    obtain ⟨distinct, named, -, parts⟩ := partOf_map.mp h
    refine (partOf_map_of_opened rfl).mpr ⟨distinct, fun key value found => ?_⟩
    obtain ⟨other, -, below⟩ := parts key value found
    exact ⟨value, found, ih (key, value) (Entries.mem_of_get? found) below⟩
  | list element items ih =>
    obtain ⟨slots, -, below⟩ := partOf_list.mp h
    refine (partOf_list_of_slots rfl).mpr (List.forall₂_same.mpr fun item member => ?_)
    obtain ⟨i, found⟩ := List.mem_iff_getElem?.mp member
    obtain ⟨slot, -, standIn | ⟨part, -⟩⟩ := forall₂_getElem? below found
    · exact standIn_slotOf_self standIn
    · exact .inr ⟨ih item member part, id⟩

/-- What has a part with names is that part or a map. -/
theorem eq_or_map_of_opened {node whole : Node} {named : Entries Node} (part : node.PartOf whole)
    (opened : node.opened? = some named) : node = whole ∨ node = .map named := by
  cases node with
  | map entries =>
    cases opened
    exact .inr rfl
  | list element items => cases opened
  | _ => exact .inl ((partOf_atomic rfl).mp part)

theorem eq_or_list_of_slots {node whole : Node} {element : ElementKind} {slots : List Node}
    (part : node.PartOf whole) (opened : node.slots? = some (element, slots)) :
    node = whole ∨ node = .list element slots := by
  cases node with
  | list element items =>
    cases opened
    exact .inr rfl
  | map entries => cases opened
  | _ => exact .inl ((partOf_atomic rfl).mp part)

theorem SlotOf.trans {element : ElementKind} {item slot whole : Node}
    (lift : ∀ {b c : Node}, item.PartOf b → b.PartOf c → item.PartOf c)
    (first : SlotOf element item slot) (second : SlotOf element slot whole) :
    SlotOf element item whole := by
  rcases first with standIn | ⟨part, shape⟩ <;> rcases second with outer | ⟨below, kept⟩
  · -- A stand-in for a stand-in is that stand-in.
    obtain rfl := standIn_of_standIn outer standIn
    exact .inl outer
  · -- What stands for the middle slot stands for the whole slot as well.
    left
    rw [← standIn, standIn?_of_partOf below kept]
  · obtain rfl := eq_of_partOf_standIn outer part
    exact .inl outer
  · exact .inr ⟨lift part below, kept ∘ shape⟩

theorem PartOf.trans {a b c : Node} (ab : a.PartOf b) (bc : b.PartOf c) : a.PartOf c := by
  induction a using copyInduction generalizing b c with
  | atomic node atomic =>
    obtain rfl := (partOf_atomic atomic).mp ab
    exact bc
  | map entries ih =>
    obtain ⟨distinct, named, opened, parts⟩ := partOf_map.mp ab
    -- The middle is copied whole, or it is a map and the entries can be followed through it.
    rcases eq_or_map_of_opened bc opened with rfl | rfl
    · exact ab
    · obtain ⟨-, further, openedWhole, more⟩ := partOf_map.mp bc
      refine partOf_map.mpr ⟨distinct, further, openedWhole, fun key value found => ?_⟩
      obtain ⟨other, foundOther, below⟩ := parts key value found
      obtain ⟨last, foundLast, belowLast⟩ := more key other foundOther
      exact ⟨last, foundLast, ih (key, value) (Entries.mem_of_get? found) below belowLast⟩
  | list element items ih =>
    obtain ⟨slots, opened, below⟩ := partOf_list.mp ab
    rcases eq_or_list_of_slots bc opened with rfl | rfl
    · exact ab
    · obtain ⟨further, openedWhole, more⟩ := partOf_list.mp bc
      refine partOf_list.mpr ⟨further, openedWhole, ?_⟩
      -- The lists are gone through together; every item brings its own induction hypothesis.
      clear ab bc opened openedWhole
      induction below generalizing further with
      | nil =>
        cases more
        exact .nil
      | cons here rest ihRest =>
        cases more with
        | cons hereWhole restWhole =>
          exact .cons (here.trans (ih _ List.mem_cons_self) hereWhole)
            (ihRest (fun item member => ih item (List.mem_cons_of_mem _ member)) _ restWhole)

/-- Two slots that are partial copies of one another are the same or hold such. -/
theorem SlotOf.antisymm {element : ElementKind} {a b : Node} (ab : SlotOf element a b)
    (ba : SlotOf element b a) : a = b ∨ a.PartOf b ∧ b.PartOf a := by
  rcases ab with standIn | ⟨part, -⟩ <;> rcases ba with back | ⟨below, -⟩
  · exact .inl (standIn_of_standIn back standIn)
  · exact .inl (eq_of_partOf_standIn standIn below).symm
  · exact .inl (eq_of_partOf_standIn back part)
  · exact .inr ⟨part, below⟩

end Node

end ModelFeed
