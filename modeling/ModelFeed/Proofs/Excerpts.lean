import ModelFeed.Proofs.MergeLaws
import ModelFeed.Proofs.Projecting
import ModelFeed.Proofs.SubView
/-!
# Excerpts

An excerpt is a copy of some of a model: fewer members anywhere, and in the slots of lists empty
maps and lists in the place of what is left out. Every part is an excerpt, but an excerpt need not
tell what is left out from what is empty. So every projection is one, whatever the lists of the
model hold.

Two excerpts of one model make an excerpt of it when they are merged. On the way values may get lost
to placeholders, but no value comes to stand where it does not belong. And what an excerpt looks like
is a sub-view of what the model looks like.
-/

namespace ModelFeed.Node

/-! ### Empty containers -/

theorem eq_of_isEmptyContainer {node : Node} (bare : node.isEmptyContainer = true) :
    node = emptyMap ∨ ∃ element, node = list element [] := by
  cases node with
  | map entries =>
    obtain rfl : entries = [] := List.isEmpty_iff.mp bare
    exact .inl rfl
  | list element items =>
    obtain rfl : items = [] := List.isEmpty_iff.mp bare
    exact .inr ⟨element, rfl⟩
  | _ => cases bare

theorem hasDistinctKeys_of_isEmptyContainer {node : Node} (bare : node.isEmptyContainer = true) :
    node.hasDistinctKeys = true := by
  rcases eq_of_isEmptyContainer bare with rfl | ⟨element, rfl⟩ <;> rfl

theorem isHollow_of_isEmptyContainer {node : Node} (bare : node.isEmptyContainer = true) :
    node.toJson.isHollow = true := by
  rcases eq_of_isEmptyContainer bare with rfl | ⟨element, rfl⟩ <;> rfl

/-! ### Copies of some of a model -/

mutual

/-- Whether a node is a copy of some of another. -/
def ExcerptOf : Node → Node → Prop
  | .map entries, whole =>
    (Entries.keys entries).Nodup ∧
      ∃ named, whole.opened? = some named ∧ entriesExcerptOf entries named
  | .list _ items, whole =>
    ∃ kind slots, whole.slots? = some (kind, slots) ∧ itemsExcerptOf items slots
  | node, whole => node = whole

def entriesExcerptOf : List (String × Node) → Entries Node → Prop
  | [], _ => True
  | (key, value) :: entries, named =>
    (∃ other, Entries.get? key named = some other ∧ value.ExcerptOf other) ∧
      entriesExcerptOf entries named

def itemsExcerptOf : List Node → List Node → Prop
  | [], [] => True
  | item :: items, slot :: slots =>
    (item.isEmptyContainer = true ∨ item.ExcerptOf slot) ∧ itemsExcerptOf items slots
  | _, _ => False

end

/-- What may stand in a slot: an excerpt of it, or an empty map or list in its place. -/
def FitsSlot (item slot : Node) : Prop :=
  item.isEmptyContainer = true ∨ item.ExcerptOf slot

theorem excerptOf_atomic {node whole : Node} (atomic : node.isAtomic = true) :
    node.ExcerptOf whole ↔ node = whole := by
  cases node <;> simp_all [isAtomic, ExcerptOf]

theorem entriesExcerptOf_iff {entries : List (String × Node)} {named : Entries Node} :
    entriesExcerptOf entries named ↔
      ∀ entry ∈ entries, ∃ other, Entries.get? entry.1 named = some other ∧
        entry.2.ExcerptOf other := by
  induction entries with
  | nil => simp [entriesExcerptOf]
  | cons entry entries ih =>
    obtain ⟨key, value⟩ := entry
    simp only [entriesExcerptOf, ih, List.forall_mem_cons]

theorem excerptOf_map {entries : List (String × Node)} {whole : Node} :
    (map entries).ExcerptOf whole ↔
      (Entries.keys entries).Nodup ∧ ∃ named, whole.opened? = some named ∧
        ∀ key value, Entries.get? key entries = some value →
          ∃ other, Entries.get? key named = some other ∧ value.ExcerptOf other := by
  rw [ExcerptOf]
  refine and_congr_right fun once => exists_congr fun named => and_congr_right fun _ => ?_
  rw [entriesExcerptOf_iff]
  constructor
  · intro parts key value found
    exact parts (key, value) (Entries.mem_of_get? found)
  · rintro parts ⟨key, value⟩ member
    exact parts key value (Entries.get?_of_mem once member)

theorem itemsExcerptOf_iff {items slots : List Node} :
    itemsExcerptOf items slots ↔ List.Forall₂ FitsSlot items slots := by
  induction items generalizing slots with
  | nil => cases slots <;> simp [itemsExcerptOf]
  | cons item items ih => cases slots <;> simp [itemsExcerptOf, FitsSlot, ih]

theorem excerptOf_list {element : ElementKind} {items : List Node} {whole : Node} :
    (list element items).ExcerptOf whole ↔
      ∃ kind slots, whole.slots? = some (kind, slots) ∧ List.Forall₂ FitsSlot items slots := by
  rw [ExcerptOf]
  simp only [itemsExcerptOf_iff]

/-- A map against the named values of what it is an excerpt of. -/
theorem excerptOf_map_of_opened {entries : List (String × Node)} {whole : Node}
    {named : Entries Node} (opened : whole.opened? = some named) :
    (map entries).ExcerptOf whole ↔
      (Entries.keys entries).Nodup ∧ ∀ key value, Entries.get? key entries = some value →
        ∃ other, Entries.get? key named = some other ∧ value.ExcerptOf other := by
  simp [excerptOf_map, opened]

theorem excerptOf_list_of_slots {element kind : ElementKind} {items slots : List Node}
    {whole : Node} (opened : whole.slots? = some (kind, slots)) :
    (list element items).ExcerptOf whole ↔ List.Forall₂ FitsSlot items slots := by
  simp [excerptOf_list, opened]

variable {whole part a b : Node} {named : Entries Node}

theorem emptyMap_excerptOf (opened : whole.opened? = some named) : emptyMap.ExcerptOf whole :=
  excerptOf_map.mpr ⟨List.nodup_nil, named, opened, fun key value found => by simp at found⟩

/-- A part is an excerpt: what stands in for a slot is an empty map or list. -/
theorem PartOf.excerptOf (h : part.PartOf whole) : part.ExcerptOf whole := by
  induction part using copyInduction generalizing whole with
  | atomic node atomic => exact (excerptOf_atomic atomic).mpr ((partOf_atomic atomic).mp h)
  | map entries ih =>
    obtain ⟨once, named, opened, parts⟩ := partOf_map.mp h
    refine (excerptOf_map_of_opened opened).mpr ⟨once, fun key value found => ?_⟩
    obtain ⟨other, present, below⟩ := parts key value found
    exact ⟨other, present, ih (key, value) (Entries.mem_of_get? found) below⟩
  | list element items ih =>
    obtain ⟨slots, opened, below⟩ := partOf_list.mp h
    refine (excerptOf_list_of_slots opened).mpr (List.forall₂_iff_get.mpr ?_)
    refine ⟨below.length_eq, fun i inside insideSlots => ?_⟩
    rcases below.get inside insideSlots with standIn | ⟨inSlot, -⟩
    · left
      rcases standIn?_eq_some standIn with same | ⟨same, -⟩ <;> rw [same] <;> rfl
    · exact .inr (ih _ (List.get_mem _ _) inSlot)

theorem ExcerptOf.refl (distinct : whole.hasDistinctKeys = true) : whole.ExcerptOf whole :=
  (PartOf.refl distinct).excerptOf

theorem ExcerptOf.hasDistinctKeys (h : part.ExcerptOf whole)
    (distinct : whole.hasDistinctKeys = true) : part.hasDistinctKeys = true := by
  induction part using copyInduction generalizing whole with
  | atomic node atomic =>
    obtain rfl := (excerptOf_atomic atomic).mp h
    exact distinct
  | map entries ih =>
    obtain ⟨once, named, opened, parts⟩ := excerptOf_map.mp h
    refine everywhere_map.mpr ⟨by simpa [isKeyed, opened?] using once, fun entry member => ?_⟩
    obtain ⟨other, found, below⟩ := parts _ _ (Entries.get?_of_mem once member)
    exact ih entry member below
      (hasDistinctKeys_of_opened distinct opened (Entries.mem_of_get? found))
  | list element items ih =>
    obtain ⟨kind, slots, opened, below⟩ := excerptOf_list.mp h
    refine everywhere_list.mpr ⟨rfl, fun item member => ?_⟩
    obtain ⟨i, found⟩ := List.mem_iff_getElem?.mp member
    obtain ⟨slot, held, bare | inSlot⟩ := forall₂_getElem? below found
    · exact hasDistinctKeys_of_isEmptyContainer bare
    · exact ih item member inSlot
        (hasDistinctKeys_of_slots distinct opened (List.mem_of_getElem? held))

theorem PartOf.hasDistinctKeys (h : part.PartOf whole) (distinct : whole.hasDistinctKeys = true) :
    part.hasDistinctKeys = true :=
  h.excerptOf.hasDistinctKeys distinct

/-- In an empty container there is nothing but empty containers. -/
theorem isEmptyContainer_of_excerptOf (bare : whole.isEmptyContainer = true)
    (h : part.ExcerptOf whole) : part.isEmptyContainer = true := by
  cases part with
  | map entries =>
    obtain ⟨-, named, opened, values⟩ := excerptOf_map.mp h
    cases whole with
    | map others =>
      cases opened
      obtain rfl : named = [] := List.isEmpty_iff.mp bare
      cases entries with
      | nil => rfl
      | cons entry entries =>
        obtain ⟨key, value⟩ := entry
        obtain ⟨other, found, -⟩ := values key value (by simp [Entries.get?_cons])
        simp at found
    | list element items => cases opened
    | _ => cases bare
  | list element items =>
    obtain ⟨kind, slots, opened, below⟩ := excerptOf_list.mp h
    cases whole with
    | list element others =>
      cases opened
      obtain rfl : slots = [] := List.isEmpty_iff.mp bare
      cases below
      rfl
    | map others => cases opened
    | _ => cases bare
  | _ =>
    obtain rfl := (excerptOf_atomic rfl).mp h
    exact bare

theorem ExcerptOf.trans (h : a.ExcerptOf b) (within : b.ExcerptOf whole) : a.ExcerptOf whole := by
  induction a using copyInduction generalizing b whole with
  | atomic node atomic =>
    obtain rfl := (excerptOf_atomic atomic).mp h
    exact within
  | map entries ih =>
    obtain ⟨once, named, opened, values⟩ := excerptOf_map.mp h
    cases b with
    | map others =>
      cases opened
      obtain ⟨-, members, openedWhole, inside⟩ := excerptOf_map.mp within
      refine excerptOf_map.mpr ⟨once, members, openedWhole, fun key value found => ?_⟩
      obtain ⟨other, there, below⟩ := values key value found
      obtain ⟨member, held, further⟩ := inside key other there
      exact ⟨member, held, ih (key, value) (Entries.mem_of_get? found) below further⟩
    | list element items => cases opened
    | _ =>
      obtain rfl := (excerptOf_atomic rfl).mp within
      exact h
  | list element items ih =>
    obtain ⟨kind, slots, opened, below⟩ := excerptOf_list.mp h
    cases b with
    | list _ others =>
      cases opened
      obtain ⟨_, members, openedWhole, inside⟩ := excerptOf_list.mp within
      refine (excerptOf_list_of_slots openedWhole).mpr (List.forall₂_iff_get.mpr
        ⟨below.length_eq.trans inside.length_eq, fun i here there => ?_⟩)
      have between : i < slots.length := below.length_eq ▸ here
      rcases below.get here between with bare | held
      · exact .inl bare
      · rcases inside.get between there with bare | further
        · exact .inl (isEmptyContainer_of_excerptOf bare held)
        · exact .inr (ih _ (List.get_mem _ _) held further)
    | map others => cases opened
    | _ =>
      obtain rfl := (excerptOf_atomic rfl).mp within
      exact h

/-- **An excerpt shows nothing that the whole does not show.** -/
theorem ExcerptOf.isSubView (h : part.ExcerptOf whole) (distinct : whole.hasDistinctKeys = true) :
    part.toJson.isSubView whole.toJson = true := by
  induction part using copyInduction generalizing whole with
  | atomic node atomic =>
    obtain rfl := (excerptOf_atomic atomic).mp h
    exact Json.isSubView_refl (hasDistinctKeys_toJson distinct)
  | map entries ih =>
    obtain ⟨once, named, opened, parts⟩ := excerptOf_map.mp h
    have apart := nodup_of_opened distinct opened
    refine (isSubView_iff_of_opened once rfl apart opened).mpr fun key value found => ?_
    obtain ⟨other, present, below⟩ := parts key value found
    exact ⟨other, present, ih (key, value) (Entries.mem_of_get? found) below
      (hasDistinctKeys_of_opened distinct opened (Entries.mem_of_get? present))⟩
  | list element items ih =>
    obtain ⟨kind, slots, opened, below⟩ := excerptOf_list.mp h
    refine (isSubView_iff_of_slots rfl opened).mpr (List.forall₂_iff_get.mpr ?_)
    refine ⟨below.length_eq, fun i inside insideSlots => ?_⟩
    rcases below.get inside insideSlots with bare | inSlot
    · exact .inl (isHollow_of_isEmptyContainer bare)
    · exact .inr (ih _ (List.get_mem _ _) inSlot
        (hasDistinctKeys_of_slots distinct opened (List.get_mem _ _)))

/-! ### Slots -/

section

variable {item slot : Node}

theorem FitsSlot.hasDistinctKeys (h : item.FitsSlot slot) (distinct : slot.hasDistinctKeys = true) :
    item.hasDistinctKeys = true :=
  h.elim hasDistinctKeys_of_isEmptyContainer fun below => below.hasDistinctKeys distinct

/-- An empty map has no values that could be no excerpts. -/
theorem FitsSlot.values {entries : List (String × Node)} (h : (map entries).FitsSlot slot)
    (opened : slot.opened? = some named) : (Entries.keys entries).Nodup ∧
      ∀ key value, Entries.get? key entries = some value →
        ∃ other, Entries.get? key named = some other ∧ value.ExcerptOf other := by
  rcases h with bare | below
  · obtain rfl : entries = [] := List.isEmpty_iff.mp bare
    exact ⟨List.nodup_nil, fun key value found => by simp at found⟩
  · exact (excerptOf_map_of_opened opened).mp below

/-- An empty list as long as the slots is so because there are none. -/
theorem FitsSlot.slots {element kind : ElementKind} {items slots : List Node}
    (h : (list element items).FitsSlot slot) (opened : slot.slots? = some (kind, slots))
    (aligned : items.length = slots.length) : List.Forall₂ FitsSlot items slots := by
  rcases h with bare | below
  · obtain rfl : items = [] := List.isEmpty_iff.mp bare
    obtain rfl := List.length_eq_zero_iff.mp aligned.symm
    exact .nil
  · exact (excerptOf_list_of_slots opened).mp below

end

/-! ### Merging excerpts of one model -/

theorem mergeValue_emptyMap {incoming : Node} (distinct : incoming.hasDistinctKeys = true) :
    mergeValue emptyMap incoming = incoming := by
  cases incoming with
  | map entries =>
    have once := nodup_of_opened distinct rfl
    rw [emptyMap, mergeValue, mergeEntries_of_distinct (by simpa using once), List.nil_append]
  | _ => simp [emptyMap, mergeValue]

/-- Nothing is put together from an empty container and another node: one of them stays. -/
theorem mergeValue_of_isEmptyContainer {target incoming : Node}
    (distinct : incoming.hasDistinctKeys = true)
    (bare : target.isEmptyContainer = true ∨ incoming.isEmptyContainer = true) :
    mergeValue target incoming = target ∨ mergeValue target incoming = incoming := by
  rcases mergeValue_cases target incoming with
    ⟨entries, others, rfl, rfl⟩ | ⟨element, items, kind, others, rfl, rfl⟩ | one
  · rw [mergeValue]
    rcases bare with empty | empty
    · obtain rfl : entries = [] := List.isEmpty_iff.mp empty
      exact .inr ((mergeValue.eq_1 ..).symm.trans (mergeValue_emptyMap distinct))
    · obtain rfl : others = [] := List.isEmpty_iff.mp empty
      exact .inl (by rw [mergeEntries_nil])
  · -- An empty list is no longer than it is, so the list already there stays in any case.
    left
    rw [mergeValue]
    rcases bare with empty | empty
    · obtain rfl : items = [] := List.isEmpty_iff.mp empty
      simp [mergeItems]
    · obtain rfl : others = [] := List.isEmpty_iff.mp empty
      cases items <;> simp [mergeItems]
  · exact one

theorem FitsSlot.mergeValue {slot item other : Node} (distinct : slot.hasDistinctKeys = true)
    (join : item.ExcerptOf slot → other.ExcerptOf slot → (mergeValue item other).ExcerptOf slot)
    (hi : item.FitsSlot slot) (ho : other.FitsSlot slot) :
    (Node.mergeValue item other).FitsSlot slot := by
  by_cases bare : item.isEmptyContainer = true ∨ other.isEmptyContainer = true
  · rcases mergeValue_of_isEmptyContainer (ho.hasDistinctKeys distinct) bare with kept | taken
    · rwa [kept]
    · rwa [taken]
  · rw [not_or] at bare
    exact .inr (join (hi.resolve_left bare.1) (ho.resolve_left bare.2))

theorem forall₂_mergeItems {rel : Node → Node → Prop} {items others slots : List Node}
    (join : ∀ item ∈ items, ∀ other ∈ others, ∀ slot ∈ slots, rel item slot → rel other slot →
      rel (mergeValue item other) slot)
    (hi : List.Forall₂ rel items slots) (ho : List.Forall₂ rel others slots) :
    List.Forall₂ rel (mergeItems items others) slots := by
  induction hi generalizing others with
  | nil =>
    cases ho
    exact .nil
  | @cons item slot items slots here rest ih =>
    cases ho with
    | @cons other _ others _ hereOther restOther =>
      rw [mergeItems]
      refine .cons (join item List.mem_cons_self other List.mem_cons_self slot List.mem_cons_self
        here hereOther) (ih (fun later member further listed last inside => ?_) restOther)
      exact join later (List.mem_cons_of_mem _ member) further (List.mem_cons_of_mem _ listed) last
        (List.mem_cons_of_mem _ inside)

/-- **Merging invents nothing.** Of two excerpts of one model merging makes an excerpt of it. -/
theorem ExcerptOf.mergeValue (distinct : whole.hasDistinctKeys = true) (ha : a.ExcerptOf whole)
    (hb : b.ExcerptOf whole) : (Node.mergeValue a b).ExcerptOf whole := by
  induction a using copyInduction generalizing whole b with
  | atomic node atomic =>
    rcases mergeValue_cases node b with
      ⟨entries, others, rfl, rfl⟩ | ⟨element, items, kind, others, rfl, rfl⟩ | kept | taken
    · cases atomic
    · cases atomic
    · rwa [kept]
    · rwa [taken]
  | map entries ih =>
    rcases mergeValue_cases (map entries) b with
      ⟨_, others, same, rfl⟩ | ⟨element, items, kind, others, same, rfl⟩ | kept | taken
    · rw [Node.mergeValue]
      obtain ⟨once, named, opened, values⟩ := excerptOf_map.mp ha
      obtain ⟨onceOther, valuesOther⟩ := (excerptOf_map_of_opened opened).mp hb
      refine (excerptOf_map_of_opened opened).mpr
        ⟨nodup_keys_mergeEntries once others, fun key value found => ?_⟩
      rcases get?_mergeEntries_eq_some onceOther found with
        alone | alone | ⟨x, y, present, presentOther, rfl⟩
      · exact values key value alone
      · exact valuesOther key value alone
      · -- Both have the value of this key, so the induction hypothesis is about one value.
        obtain ⟨z, held, below⟩ := values key x present
        obtain ⟨_, again, belowOther⟩ := valuesOther key y presentOther
        obtain rfl := Option.some.inj (again.symm.trans held)
        have inside := hasDistinctKeys_of_opened distinct opened (Entries.mem_of_get? held)
        exact ⟨_, held, ih (key, x) (Entries.mem_of_get? present) inside below belowOther⟩
    · cases same
    · rwa [kept]
    · rwa [taken]
  | list element items ih =>
    rcases mergeValue_cases (list element items) b with
      ⟨entries, others, same, rfl⟩ | ⟨_, _, kind, others, same, rfl⟩ | kept | taken
    · cases same
    · rw [Node.mergeValue]
      split
      next =>
        obtain ⟨_, slots, opened, below⟩ := excerptOf_list.mp ha
        have belowOther := (excerptOf_list_of_slots opened).mp hb
        refine (excerptOf_list_of_slots opened).mpr (forall₂_mergeItems ?_ below belowOther)
        intro item member other _ slot held hi ho
        have inside := hasDistinctKeys_of_slots distinct opened held
        exact hi.mergeValue inside (fun hi ho => ih item member inside hi ho) ho
      next => exact ha
    · rwa [kept]
    · rwa [taken]

/-- Of what has members every excerpt has members. -/
theorem exists_opened_of_excerptOf (opened : whole.opened? = some named)
    (h : part.ExcerptOf whole) : ∃ entries, part.opened? = some entries := by
  cases part with
  | map entries => exact ⟨entries, rfl⟩
  | list element items =>
    obtain ⟨kind, slots, both, -⟩ := excerptOf_list.mp h
    rw [slots?_of_opened opened] at both
    cases both
  | _ =>
    obtain rfl := (excerptOf_atomic rfl).mp h
    exact ⟨named, opened⟩

/-- Between excerpts of a model with members null does not occur, and an empty map makes no
difference. -/
theorem merge_eq_mergeValue (opened : whole.opened? = some named) (ha : a.ExcerptOf whole)
    (hb : b.ExcerptOf whole) : a.merge b = Node.mergeValue a b := by
  rcases merge_cases b with (rfl | rfl) | merged
  · obtain rfl := (excerptOf_atomic rfl).mp hb
    cases opened
  · obtain ⟨entries, shape⟩ := exists_opened_of_excerptOf opened ha
    rw [merge_emptyMap]
    cases a <;> simp_all [opened?, Node.mergeValue, emptyMap, isScalar]
  · exact merged a

theorem ExcerptOf.foldl (opened : whole.opened? = some named)
    (distinct : whole.hasDistinctKeys = true) {start : Node} (hs : start.ExcerptOf whole)
    {parts : List Node} (hp : ∀ part ∈ parts, part.ExcerptOf whole) :
    (parts.foldl Node.merge start).ExcerptOf whole := by
  induction parts generalizing start with
  | nil => exact hs
  | cons part parts ih =>
    obtain ⟨first, rest⟩ := List.forall_mem_cons.mp hp
    refine ih ?_ rest
    rw [merge_eq_mergeValue opened hs first]
    exact hs.mergeValue distinct first

/-! ### Projections -/

theorem isEmptyContainer_placeOf (node slot : Node) :
    (node.placeOf slot).isEmptyContainer = true := by
  cases node with
  | list element items => cases element <;> rfl
  | _ =>
    cases slot with
    | blob json => cases json <;> rfl
    | _ => rfl

/-- Of a slot a filter leaves nothing, all, or what a projection of the slot leaves. -/
theorem fitsSlot_keepSlot {place : Node → Node} {slot : Node} {selected : Option Nat}
    {rest : List Token} {i : Nat} (bare : (place slot).isEmptyContainer = true)
    (whole : slot.ExcerptOf slot)
    (below : ∀ part, slot.project? rest = some part → part.ExcerptOf slot) :
    (keepSlot place selected rest i slot).FitsSlot slot := by
  by_cases null : slot.isNull = true
  · rw [keepSlot_of_isNull null]
    exact .inr whole
  · rw [keepSlot, if_neg null]
    split
    next => exact .inl bare
    next =>
      split
      next => exact .inr whole
      next =>
        cases found : slot.project? rest with
        | none => exact .inl bare
        | some part => exact .inr (below part found)

/-- **A projection is an excerpt of the model**, whatever the lists of the model hold. -/
theorem project?_excerptOf {tokens : List Token} (distinct : whole.hasDistinctKeys = true)
    (h : whole.project? tokens = some part) : part.ExcerptOf whole := by
  induction tokens generalizing whole part with
  | nil => simp [project?] at h
  | cons token rest ih =>
    cases token with
    | name text =>
      obtain ⟨ms, listed⟩ := allMembers?_of_project? h
      rw [project?_name_of_allMembers listed] at h
      -- Each member comes whole or as a projection of its value.
      have parts : ∀ m ∈ ms, ∀ pair, m.project? (.name text) rest = some pair →
          pair.2.ExcerptOf m.value := by
        intro m member pair selected
        have inside := hasDistinctKeys_of_member distinct listed member
        obtain ⟨-, -, ⟨-, same⟩ | ⟨-, -, found⟩⟩ := Member.project?_eq_some selected
        · rw [same]
          exact .refl inside
        · exact ih inside found
      obtain ⟨entries, named, rfl, once, opened, values⟩ := exists_entries_of_selected distinct
        listed (fun m pair selected => (Member.project?_eq_some selected).2.1) parts h
      exact (excerptOf_map_of_opened opened).mpr ⟨once, values⟩
    | index wanted =>
      obtain ⟨⟨element, slots⟩, opened⟩ := slots?_of_project? h
      rw [project?_index_eq opened] at h
      obtain ⟨selected, -, rfl⟩ := Option.map_eq_some_iff.mp h
      split
      next => exact .refl distinct
      next =>
        refine (excerptOf_list_of_slots opened).mpr (forall₂_mapIdx_left fun i slot here => ?_)
        have inside := hasDistinctKeys_of_slots distinct opened (List.mem_of_getElem? here)
        exact fitsSlot_keepSlot (isEmptyContainer_placeOf whole slot) (.refl inside)
          fun part found => ih inside found

end ModelFeed.Node
