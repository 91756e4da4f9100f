import ModelFeed.Proofs.Part
/-!
# Equal up to the order of entries

Two trees that are parts of one another are equal: they differ in the order of map entries at most.
-/

namespace ModelFeed

theorem Number.same_refl (n : Number) : n.same n = true := by
  cases n <;> simp [same, Binary64.sameValue]

theorem Json.same_refl (json : Json) : json.same json = true := by
  induction json using inductionOn with
  | scalar json leaf => cases json <;> simp_all [same, isContainer, Number.same_refl]
  | array items ih =>
    rw [same]
    induction items with
    | nil => rfl
    | cons item items rest =>
      obtain ⟨first, ih⟩ := List.forall_mem_cons.mp ih
      rw [sameItems, first, rest ih, Bool.and_self]
  | object members ih =>
    rw [same]
    induction members with
    | nil => rfl
    | cons member members rest =>
      obtain ⟨first, ih⟩ := List.forall_mem_cons.mp ih
      simp [sameMembers, first, rest ih]

theorem ElementKind.same_refl (element : ElementKind) : element.same element = true := by
  cases element <;> simp [same, Schema.same]

namespace Node

theorem sameItems_iff {as bs : List Node} :
    sameItems as bs = true ↔ List.Forall₂ (fun a b => a.same b = true) as bs := by
  induction as generalizing bs with
  | nil => cases bs <;> simp [sameItems]
  | cons a as ih => cases bs <;> simp [sameItems, ih]

theorem sameEntries_iff {as : List (String × Node)} {bs : Entries Node} :
    sameEntries as bs = true ↔
      ∀ entry ∈ as, ∃ other, Entries.get? entry.1 bs = some other ∧
        entry.2.same other = true := by
  induction as with
  | nil => simp [sameEntries]
  | cons entry as ih =>
    obtain ⟨key, value⟩ := entry
    rw [sameEntries, Bool.and_eq_true, ih, List.forall_mem_cons]
    cases Entries.get? key bs <;> simp

theorem same_refl {node : Node} (distinct : node.hasDistinctKeys = true) :
    node.same node = true := by
  induction node using inductionOn with
  | scalar node leaf => cases node <;> simp_all [same, isScalar, Number.same_refl]
  | structured schema values ih =>
    rw [same, Bool.and_eq_true, sameItems_iff, List.forall₂_same]
    exact ⟨by simp [Schema.same], fun value member =>
      ih value member ((everywhere_structured.mp distinct).2 value member)⟩
  | list element items ih =>
    rw [same, Bool.and_eq_true, sameItems_iff, List.forall₂_same]
    exact ⟨element.same_refl, fun item member =>
      ih item member ((everywhere_list.mp distinct).2 item member)⟩
  | map entries ih =>
    rw [same, Bool.and_eq_true, sameEntries_iff]
    refine ⟨beq_self_eq_true _, fun entry member => ⟨entry.2, ?_, ?_⟩⟩
    · exact Entries.get?_of_mem (nodup_of_opened distinct rfl) member
    · exact ih entry member (hasDistinctKeys_of_opened distinct rfl member)
  | blob json => rw [same, json.same_refl]

theorem length_le_of_parts {as bs : Entries Node} (distinct : (Entries.keys as).Nodup)
    (parts : ∀ key value, Entries.get? key as = some value →
      ∃ other, Entries.get? key bs = some other ∧ value.PartOf other) :
    as.length ≤ bs.length := by
  have fewer := (List.subperm_of_subset distinct (keys_subset_of_parts parts)).length_le
  simpa [Entries.keys] using fewer

/-- What are parts of one another are equal. -/
theorem PartOf.same {a b : Node} (distinct : a.hasDistinctKeys = true) (ab : a.PartOf b)
    (ba : b.PartOf a) : a.same b = true := by
  induction a using copyInduction generalizing b with
  | atomic node atomic =>
    obtain rfl := (partOf_atomic atomic).mp ab
    exact same_refl distinct
  | map entries ih =>
    obtain ⟨apart, named, opened, parts⟩ := partOf_map.mp ab
    rcases eq_or_map_of_opened ba opened with rfl | rfl
    · exact same_refl distinct
    · obtain ⟨apartBack, back⟩ := (partOf_map_of_opened rfl).mp ba
      rw [Node.same, Bool.and_eq_true, beq_iff_eq, sameEntries_iff]
      constructor
      · -- Each has all the keys of the other.
        exact Nat.le_antisymm (length_le_of_parts apart parts) (length_le_of_parts apartBack back)
      · intro entry member
        have found := Entries.get?_of_mem apart member
        obtain ⟨other, foundOther, below⟩ := parts _ _ found
        obtain ⟨again, foundAgain, above⟩ := back _ _ foundOther
        rw [found, Option.some.injEq] at foundAgain
        subst foundAgain
        exact ⟨other, foundOther,
          ih entry member (hasDistinctKeys_of_opened distinct rfl member) below above⟩
  | list element items ih =>
    obtain ⟨slots, opened, below⟩ := partOf_list.mp ab
    rcases eq_or_list_of_slots ba opened with rfl | rfl
    · exact same_refl distinct
    · have above := (partOf_list_of_slots rfl).mp ba
      rw [Node.same, Bool.and_eq_true, sameItems_iff]
      refine ⟨element.same_refl, ?_⟩
      have inside : ∀ item ∈ items, item.hasDistinctKeys = true :=
        fun item => hasDistinctKeys_of_slots distinct rfl
      clear ab ba opened distinct
      induction below with
      | nil => exact .nil
      | @cons item slot items slots here rest ihRest =>
        obtain ⟨hereBack, restBack⟩ := List.forall₂_cons.mp above
        obtain ⟨insideHere, insideRest⟩ := List.forall_mem_cons.mp inside
        refine .cons ?_ (ihRest (fun a member => ih a (List.mem_cons_of_mem _ member)) restBack
          insideRest)
        -- Stand-ins of one another are equal; all else is compared further down.
        rcases here.antisymm hereBack with rfl | ⟨part, back⟩
        · exact same_refl insideHere
        · exact ih item List.mem_cons_self insideHere part back

end Node

end ModelFeed
