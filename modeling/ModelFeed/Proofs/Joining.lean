import ModelFeed.Merge
import ModelFeed.Proofs.Part
/-!
# Merging joins parts

Merging keeps some values and overwrites others, as their shapes demand. Between two parts of one
model that is never a loss: what comes out is a part of the model again, and both are parts of it.
So folding any number of projections, in any order, gives a part that has each of them in it.
-/

namespace ModelFeed.Node

/-! ### One step of a merge -/

theorem mergeEntries_cons (target : Entries Node) (key : String) (value : Node)
    (incoming : List (String × Node)) :
    mergeEntries target ((key, value) :: incoming) =
      mergeEntries (Entries.insert key
        ((Entries.get? key target).elim value (mergeValue · value)) target) incoming := by
  rw [mergeEntries]
  cases Entries.get? key target <;> rfl

theorem nodup_keys_mergeEntries {target : Entries Node} (distinct : (Entries.keys target).Nodup)
    (incoming : List (String × Node)) : (Entries.keys (mergeEntries target incoming)).Nodup := by
  induction incoming generalizing target with
  | nil => rwa [mergeEntries_nil]
  | cons entry incoming ih =>
    obtain ⟨key, value⟩ := entry
    rw [mergeEntries_cons]
    exact ih (Entries.nodup_keys_insert distinct _ _)

variable {key : String} {value : Node} {target incoming : Entries Node}

/-- A key that is not merged in keeps its value. -/
theorem get?_mergeEntries_of_absent (absent : Entries.get? key incoming = none) :
    Entries.get? key (mergeEntries target incoming) = Entries.get? key target := by
  induction incoming generalizing target with
  | nil => rw [mergeEntries_nil]
  | cons entry incoming ih =>
    obtain ⟨k, v⟩ := entry
    rw [Entries.get?_cons] at absent
    split at absent
    next => cases absent
    next other => rw [mergeEntries_cons, ih absent, Entries.get?_insert_of_ne other]

/-- A key that is merged in gets the value, merged into one that is there. -/
theorem get?_mergeEntries_of_found (distinct : (Entries.keys incoming).Nodup)
    (found : Entries.get? key incoming = some value) :
    Entries.get? key (mergeEntries target incoming) =
      some ((Entries.get? key target).elim value (mergeValue · value)) := by
  induction incoming generalizing target with
  | nil => simp at found
  | cons entry incoming ih =>
    obtain ⟨k, v⟩ := entry
    obtain ⟨fresh, distinct⟩ := Entries.nodup_keys_cons.mp distinct
    rw [Entries.get?_cons] at found
    rw [mergeEntries_cons]
    split at found
    next same =>
      -- The key does not come again, so nothing is merged over it.
      subst same
      cases found
      rw [get?_mergeEntries_of_absent (Entries.get?_eq_none_iff.mpr fresh),
        Entries.get?_insert_self]
    next other => rw [ih distinct found, Entries.get?_insert_of_ne other]

/-- A key of one side keeps its value, and a key of both sides gets the merged one. -/
theorem get?_mergeEntries (distinct : (Entries.keys incoming).Nodup) (key : String) :
    Entries.get? key (mergeEntries target incoming) =
      (Entries.get? key target).merge mergeValue (Entries.get? key incoming) := by
  cases found : Entries.get? key incoming with
  | none => rw [get?_mergeEntries_of_absent found, Option.merge_none_right]
  | some value =>
    rw [get?_mergeEntries_of_found distinct found]
    cases Entries.get? key target <;> rfl

/-- A merged value is one of those merged, or made of two under the same key. -/
theorem get?_mergeEntries_eq_some (distinct : (Entries.keys incoming).Nodup)
    (found : Entries.get? key (mergeEntries target incoming) = some value) :
    Entries.get? key target = some value ∨ Entries.get? key incoming = some value ∨
      ∃ x y, Entries.get? key target = some x ∧ Entries.get? key incoming = some y ∧
        mergeValue x y = value := by
  rw [get?_mergeEntries distinct] at found
  cases present : Entries.get? key target with
  | none =>
    rw [present, Option.merge_none_left] at found
    exact .inr (.inl found)
  | some x =>
    cases also : Entries.get? key incoming with
    | none =>
      rw [present, also, Option.merge_none_right] at found
      exact .inl found
    | some y =>
      rw [present, also, Option.merge_some_some, Option.some.injEq] at found
      exact .inr (.inr ⟨x, y, rfl, rfl, found⟩)

/-- The new keys come after those that were there, both in their order. -/
theorem keys_mergeEntries (distinct : (Entries.keys incoming).Nodup) :
    Entries.keys (mergeEntries target incoming) =
      Entries.keys target ++ (Entries.keys incoming).filter (· ∉ Entries.keys target) := by
  induction incoming generalizing target with
  | nil => simp [Entries.keys]
  | cons entry incoming ih =>
    obtain ⟨k, v⟩ := entry
    obtain ⟨fresh, distinct⟩ := Entries.nodup_keys_cons.mp distinct
    have listed : Entries.keys ((k, v) :: incoming) = k :: Entries.keys incoming := rfl
    rw [mergeEntries_cons, ih distinct, listed]
    by_cases present : k ∈ Entries.keys target
    · rw [Entries.keys_insert_of_mem present, List.filter_cons_of_neg (by simpa using present)]
    · have grown : ∀ value, Entries.keys (Entries.insert k value target) =
          Entries.keys target ++ [k] := fun value => by
        simp [Entries.insert_of_not_mem present, Entries.keys]
      -- The key does not come again, so the later ones are as new after it as before it.
      have still : (Entries.keys incoming).filter (· ∉ Entries.keys target ++ [k]) =
          (Entries.keys incoming).filter (· ∉ Entries.keys target) := by
        apply List.filter_congr
        intro later held
        have other : later ≠ k := ne_of_mem_of_not_mem held fresh
        simp [other]
      rw [grown, still, List.filter_cons_of_pos (by simpa using present), List.append_assoc,
        List.singleton_append]

theorem mergeEntries_of_distinct {done incoming : Entries Node}
    (distinct : (Entries.keys (done ++ incoming)).Nodup) :
    mergeEntries done incoming = done ++ incoming := by
  induction incoming generalizing done with
  | nil => simp
  | cons entry incoming ih =>
    obtain ⟨key, value⟩ := entry
    have absent := Entries.not_mem_keys_of_nodup distinct
    rw [mergeEntries_cons, Entries.get?_eq_none_iff.mpr absent, Entries.insert_of_not_mem absent]
    rw [ih (by simpa using distinct)]
    simp

/-- Merging goes into two maps and into two lists, and otherwise takes one side as it is. -/
theorem mergeValue_cases (target incoming : Node) :
    (∃ entries others, target = map entries ∧ incoming = map others) ∨
      (∃ element items kind others, target = list element items ∧ incoming = list kind others) ∨
      mergeValue target incoming = target ∨ mergeValue target incoming = incoming := by
  cases target with
  | map entries =>
    cases incoming with
    | map others => exact .inl ⟨entries, others, rfl, rfl⟩
    | _ => exact .inr (.inr (.inr (by rw [mergeValue]; simp)))
  | list element items =>
    cases incoming with
    | list kind others => exact .inr (.inl ⟨element, items, kind, others, rfl, rfl⟩)
    | _ => exact .inr (.inr (.inr (by rw [mergeValue]; simp)))
  | _ =>
    right; right
    simp only [mergeValue]
    split
    next => exact .inr rfl
    next => exact .inl rfl

theorem mergeValue_atomic {target incoming : Node} (partial_ : target.isAtomic = false)
    (atomic : incoming.isAtomic = true) : mergeValue target incoming = incoming := by
  cases target <;> cases incoming <;> simp_all [mergeValue, isAtomic]

/-- A value that is copied whole stays when a part of it is merged in. -/
theorem mergeValue_of_whole {whole part : Node} (atomic : whole.isAtomic = true)
    (below : part.PartOf whole) : mergeValue whole part = whole := by
  cases part with
  | map entries =>
    obtain ⟨-, named, opened, -⟩ := partOf_map.mp below
    cases whole <;> simp_all [mergeValue, isAtomic, isScalar, opened?]
  | list element items =>
    obtain ⟨slots, opened, -⟩ := partOf_list.mp below
    cases whole <;> simp_all [mergeValue, isAtomic, isScalar, slots?]
  | _ =>
    obtain rfl := (partOf_atomic rfl).mp below
    simp [mergeValue, isScalar]

theorem isList_of_mergeValue {target incoming : Node}
    (h : (mergeValue target incoming).isList = true) :
    target.isList = true ∨ incoming.isList = true := by
  cases target with
  | list element items => exact .inl rfl
  | map entries =>
    cases incoming with
    | list element items => exact .inr rfl
    | _ => simp [mergeValue, isList, items?] at h
  | _ =>
    cases incoming with
    | list element items => exact .inr rfl
    | _ => simp [mergeValue, isList, items?, isScalar] at h

theorem PartOf.isList {part whole : Node} (below : part.PartOf whole)
    (shape : whole.isList = true) : part.isList = true := by
  cases whole with
  | list element items =>
    cases part with
    | list kind slots => rfl
    | map entries =>
      obtain ⟨-, named, opened, -⟩ := partOf_map.mp below
      cases opened
    | _ => cases (partOf_atomic rfl).mp below
  | _ => simp [Node.isList, items?] at shape

/-! ### The join -/

/-- What contains two things and lies below a third that contains both. -/
structure IsJoin (rel : Node → Node → Prop) (whole a b joined : Node) : Prop where
  below : rel joined whole
  left : rel a joined
  right : rel b joined

section

variable {element : ElementKind} {item other whole : Node}

theorem mergeValue_standIn_self (standIn : whole.standIn? element = some item) :
    mergeValue item item = item := by
  rcases standIn?_eq_some standIn with rfl | ⟨rfl, -⟩ <;>
    simp [mergeValue, mergeItems, emptyMap, placeholder]

theorem mergeValue_standIn_left (standIn : whole.standIn? element = some item)
    (part : other.PartOf whole) (shape : other.isList = true → whole.isList = true) :
    mergeValue item other = other := by
  have kept := (standIn?_of_partOf part shape element).trans standIn
  have copied : item.isAtomic = false := by
    rcases standIn?_eq_some standIn with rfl | ⟨rfl, -⟩ <;> rfl
  cases other with
  | list kind items => simp at kept
  | map entries =>
    have distinct := (partOf_map.mp part).1
    rcases standIn?_eq_some standIn with rfl | ⟨rfl, -⟩
    · rw [emptyMap, mergeValue, mergeEntries_of_distinct (by simpa using distinct), List.nil_append]
    · simp [placeholder, mergeValue]
  | _ => exact mergeValue_atomic copied rfl

theorem mergeValue_standIn_right (standIn : whole.standIn? element = some item)
    (part : other.PartOf whole) (shape : other.isList = true → whole.isList = true) :
    mergeValue other item = other := by
  have kept := (standIn?_of_partOf part shape element).trans standIn
  cases other with
  | list kind items => simp at kept
  | map entries =>
    rcases standIn?_eq_some kept with rfl | ⟨-, atomic⟩
    · simp [emptyMap, mergeValue]
    · cases atomic
  | structured schema values => simp [mergeValue, isScalar]
  | blob json => simp [mergeValue, isScalar]
  | _ => cases element <;> cases kept

/-- Slots are joined as the nodes in them are; a stand-in gives way. -/
theorem SlotOf.merge (join : item.PartOf whole → other.PartOf whole →
      IsJoin PartOf whole item other (mergeValue item other))
    (hi : SlotOf element item whole) (ho : SlotOf element other whole) :
    IsJoin (SlotOf element) whole item other (mergeValue item other) := by
  rcases hi with standIn | ⟨part, shape⟩ <;> rcases ho with aside | ⟨below, kept⟩
  · -- Left out twice.
    obtain rfl := Option.some.inj (standIn.symm.trans aside)
    rw [mergeValue_standIn_self standIn]
    exact ⟨.inl standIn, standIn_slotOf_self standIn, standIn_slotOf_self standIn⟩
  · -- Left out on one side, which gives way to what the other side has.
    rw [mergeValue_standIn_left standIn below kept]
    exact ⟨.inr ⟨below, kept⟩, .inl ((standIn?_of_partOf below kept element).trans standIn),
      .inr ⟨below.left_refl, id⟩⟩
  · rw [mergeValue_standIn_right aside part shape]
    exact ⟨.inr ⟨part, shape⟩, .inr ⟨part.left_refl, id⟩,
      .inl ((standIn?_of_partOf part shape element).trans aside)⟩
  · obtain ⟨joined, left, right⟩ := join part below
    exact ⟨.inr ⟨joined, fun merged => (isList_of_mergeValue merged).elim shape kept⟩,
      .inr ⟨left, fun list => joined.isList (shape list)⟩,
      .inr ⟨right, fun list => joined.isList (kept list)⟩⟩

end

theorem mergeItems_join {element : ElementKind} {items others slots : List Node}
    (join : ∀ item ∈ items, ∀ {other whole}, item.PartOf whole → other.PartOf whole →
      IsJoin PartOf whole item other (mergeValue item other))
    (hi : List.Forall₂ (SlotOf element) items slots)
    (ho : List.Forall₂ (SlotOf element) others slots) :
    List.Forall₂ (SlotOf element) (mergeItems items others) slots ∧
      List.Forall₂ (SlotOf element) items (mergeItems items others) ∧
      List.Forall₂ (SlotOf element) others (mergeItems items others) := by
  induction hi generalizing others with
  | nil =>
    cases ho
    simp [mergeItems]
  | @cons item slot items slots here rest ih =>
    cases ho with
    | @cons other _ others _ hereOther restOther =>
      have first := here.merge (join item List.mem_cons_self) hereOther
      obtain ⟨below, left, right⟩ :=
        ih (fun item member => join item (List.mem_cons_of_mem _ member)) restOther
      rw [mergeItems]
      exact ⟨.cons first.below below, .cons first.left left, .cons first.right right⟩

theorem mergeEntries_join {entries others named : Entries Node}
    (join : ∀ entry ∈ entries, ∀ {other whole}, entry.2.PartOf whole → other.PartOf whole →
      IsJoin PartOf whole entry.2 other (mergeValue entry.2 other)) {whole : Node}
    (opened : whole.opened? = some named) (hi : (map entries).PartOf whole)
    (ho : (map others).PartOf whole) :
    IsJoin PartOf whole (map entries) (map others) (map (mergeEntries entries others)) := by
  obtain ⟨distinct, parts⟩ := (partOf_map_of_opened opened).mp hi
  obtain ⟨distinctOther, partsOther⟩ := (partOf_map_of_opened opened).mp ho
  have joined : ∀ key x y, Entries.get? key entries = some x → Entries.get? key others = some y →
      ∃ z, Entries.get? key named = some z ∧ IsJoin PartOf z x y (mergeValue x y) := by
    intro key x y found foundOther
    obtain ⟨z, held, below⟩ := parts key x found
    obtain ⟨_, again, belowOther⟩ := partsOther key y foundOther
    obtain rfl := Option.some.inj (again.symm.trans held)
    exact ⟨_, held, join (key, x) (Entries.mem_of_get? found) below belowOther⟩
  have merged := nodup_keys_mergeEntries distinct others
  constructor
  · -- A key of one side has its value there, a key of both sides the merged one.
    refine (partOf_map_of_opened opened).mpr ⟨merged, fun key value found => ?_⟩
    cases foundOther : Entries.get? key others with
    | none =>
      rw [get?_mergeEntries_of_absent foundOther] at found
      exact parts key value found
    | some y =>
      rw [get?_mergeEntries_of_found distinctOther foundOther, Option.some.injEq] at found
      subst found
      cases present : Entries.get? key entries with
      | none => exact partsOther key y foundOther
      | some x =>
        obtain ⟨z, held, both⟩ := joined key x y present foundOther
        exact ⟨z, held, both.below⟩
  · -- Nothing of the first side is lost.
    refine (partOf_map_of_opened rfl).mpr ⟨distinct, fun key x found => ?_⟩
    cases foundOther : Entries.get? key others with
    | none =>
      obtain ⟨z, -, below⟩ := parts key x found
      exact ⟨x, by rw [get?_mergeEntries_of_absent foundOther, found], below.left_refl⟩
    | some y =>
      obtain ⟨z, -, both⟩ := joined key x y found foundOther
      refine ⟨mergeValue x y, ?_, both.left⟩
      rw [get?_mergeEntries_of_found distinctOther foundOther, found, Option.elim_some]
  · -- Nothing of the second side is lost either.
    refine (partOf_map_of_opened rfl).mpr ⟨distinctOther, fun key y foundOther => ?_⟩
    rw [get?_mergeEntries_of_found distinctOther foundOther]
    cases present : Entries.get? key entries with
    | none =>
      obtain ⟨z, -, below⟩ := partsOther key y foundOther
      exact ⟨y, rfl, below.left_refl⟩
    | some x =>
      obtain ⟨z, -, both⟩ := joined key x y present foundOther
      exact ⟨mergeValue x y, rfl, both.right⟩

/-- **Merging is a join.** Of two parts of one model merging makes a part of it that both are
parts of. -/
theorem PartOf.merge {whole a b : Node} (ha : a.PartOf whole) (hb : b.PartOf whole) :
    IsJoin PartOf whole a b (mergeValue a b) := by
  induction a using copyInduction generalizing whole b with
  | atomic node atomic =>
    -- A value copied whole is the whole, so it has the other part in it already.
    obtain rfl := (partOf_atomic atomic).mp ha
    rw [mergeValue_of_whole atomic hb]
    exact ⟨ha, ha, hb⟩
  | map entries ih =>
    obtain ⟨-, named, opened, -⟩ := partOf_map.mp ha
    cases b with
    | map others =>
      rw [mergeValue]
      exact mergeEntries_join (fun entry member => ih entry member) opened ha hb
    | list element items =>
      obtain ⟨slots, both, -⟩ := partOf_list.mp hb
      rw [slots?_of_opened opened] at both
      cases both
    | _ =>
      obtain rfl := (partOf_atomic rfl).mp hb
      rw [mergeValue_atomic rfl rfl]
      exact ⟨hb, ha, hb⟩
  | list element items ih =>
    obtain ⟨slots, opened, below⟩ := partOf_list.mp ha
    cases b with
    | map others =>
      obtain ⟨-, named, both, -⟩ := partOf_map.mp hb
      rw [slots?_of_opened both] at opened
      cases opened
    | list kind others =>
      obtain ⟨_, again, belowOther⟩ := partOf_list.mp hb
      cases opened.symm.trans again
      -- Both are as long as the list they are parts of.
      have aligned : items.length = others.length :=
        below.length_eq.trans belowOther.length_eq.symm
      rw [mergeValue, if_pos aligned]
      obtain ⟨merged, left, right⟩ :=
        mergeItems_join (fun item member => ih item member) below belowOther
      exact ⟨(partOf_list_of_slots opened).mpr merged, (partOf_list_of_slots rfl).mpr left,
        (partOf_list_of_slots rfl).mpr right⟩
    | _ =>
      obtain rfl := (partOf_atomic rfl).mp hb
      rw [mergeValue_atomic rfl rfl]
      exact ⟨hb, ha, hb⟩

/-! ### Folding parts together -/

/-- Null and the empty map are left out of a merge, which makes no difference between maps. -/
theorem merge_map (entries others : List (String × Node)) :
    (map entries).merge (map others) = map (mergeEntries entries others) := by
  cases others with
  | nil => simp [merge]
  | cons entry others => rw [merge, mergeValue] <;> simp

/-- A part that is a map, as every projection onto a name is. -/
def IsMapPart (whole part : Node) : Prop :=
  (∃ entries, part = map entries) ∧ part.PartOf whole

theorem IsMapPart.merge {whole a b : Node} (ha : IsMapPart whole a) (hb : IsMapPart whole b) :
    IsMapPart whole (a.merge b) ∧ a.PartOf (a.merge b) ∧ b.PartOf (a.merge b) := by
  obtain ⟨⟨entries, rfl⟩, belowA⟩ := ha
  obtain ⟨⟨others, rfl⟩, belowB⟩ := hb
  have joined := belowA.merge belowB
  rw [mergeValue] at joined
  rw [merge_map]
  exact ⟨⟨⟨_, rfl⟩, joined.below⟩, joined.left, joined.right⟩

/-- Parts folded together are a part again, and each of them is a part of it. -/
theorem IsMapPart.foldl {whole start : Node} (hs : IsMapPart whole start) {parts : List Node}
    (hp : ∀ part ∈ parts, IsMapPart whole part) :
    IsMapPart whole (parts.foldl Node.merge start) ∧
      ∀ part ∈ start :: parts, part.PartOf (parts.foldl Node.merge start) := by
  induction parts generalizing start with
  | nil => exact ⟨hs, by simpa using hs.2.left_refl⟩
  | cons part parts ih =>
    obtain ⟨merged, left, right⟩ := hs.merge (hp part List.mem_cons_self)
    obtain ⟨folded, held⟩ := ih merged fun p member => hp p (List.mem_cons_of_mem _ member)
    have before := held _ List.mem_cons_self
    refine ⟨folded, fun p member => ?_⟩
    rcases List.mem_cons.mp member with rfl | member
    · exact left.trans before
    · rcases List.mem_cons.mp member with rfl | later
      · exact right.trans before
      · exact held p (List.mem_cons_of_mem _ later)

end ModelFeed.Node
