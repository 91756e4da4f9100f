import ModelFeed.Proofs.Canonical
/-!
# Another order of the members

A map keeps its entries as they were inserted, a structured node its values as the schema declares
the properties. Neither order says anything about the machine: where every key is distinct, the
document of a node is the same in any order. The relation here changes the order at one place of a
model; what it keeps, any number of such changes keeps.
-/

namespace ModelFeed

theorem map_fst_zip_congr {α β : Type} (as : List α) {bs cs : List β}
    (aligned : bs.length = cs.length) : (as.zip bs).map Prod.fst = (as.zip cs).map Prod.fst := by
  induction as generalizing bs cs with
  | nil => rfl
  | cons a as ih =>
    cases bs with
    | nil => rw [List.eq_nil_of_length_eq_zero aligned.symm]
    | cons b bs =>
      cases cs with
      | nil => cases aligned
      | cons c cs => simpa using ih (Nat.succ.inj aligned)

/-- One element of a list gives way to another. -/
theorem forall_mem_replaced {α : Type} {p : α → Prop} {front back : List α} {old new : α}
    (all : ∀ a ∈ front ++ old :: back, p a) (replaced : p old → p new) :
    ∀ a ∈ front ++ new :: back, p a := by
  simp only [List.forall_mem_append, List.forall_mem_cons] at all ⊢
  exact ⟨all.1, replaced all.2.1, all.2.2⟩

namespace Node

/-- The members of an object only depend on what the values look like as documents. -/
theorem jsonFields_congr {properties : List Property} {values others : List Node}
    (same : values.map toJson = others.map toJson) :
    jsonFields properties values = jsonFields properties others := by
  have paired (values : List Node) : jsonFields properties values =
      (properties.map Property.name).zip (values.map toJson) := by
    rw [jsonFields_eq, List.zip_map]
    rfl
  rw [paired, paired, same]

/-- At one place, however deep, the entries of a map stand in another order, or the properties of a
structured node. -/
inductive Reorders : Node → Node → Prop
  | entries {before after : Entries Node} (perm : before.Perm after) :
      Reorders (.map before) (.map after)
  | properties {schema other : Schema} {before after : List Node}
      (perm : (schema.properties.zip before).Perm (other.properties.zip after))
      (complete : after.length = other.properties.length) :
      Reorders (.structured schema before) (.structured other after)
  | inField {schema : Schema} {front back : List Node} {old new : Node} (inner : Reorders old new) :
      Reorders (.structured schema (front ++ old :: back))
        (.structured schema (front ++ new :: back))
  | inItem {element : ElementKind} {front back : List Node} {old new : Node}
      (inner : Reorders old new) :
      Reorders (.list element (front ++ old :: back)) (.list element (front ++ new :: back))
  | inEntry {key : String} {front back : Entries Node} {old new : Node}
      (inner : Reorders old new) :
      Reorders (.map (front ++ (key, old) :: back)) (.map (front ++ (key, new) :: back))

namespace Reorders

variable {before after : Node} {test : Node → Bool}

/-- A test that each change of order keeps where it is asked is kept everywhere. -/
theorem everywhere
    (keeps : ∀ {before after}, Reorders before after → test before = true → test after = true)
    (reorders : Reorders before after) (holds : before.everywhere test = true) :
    after.everywhere test = true := by
  induction reorders with
  | entries perm =>
    obtain ⟨here, below⟩ := everywhere_map.mp holds
    exact everywhere_map.mpr
      ⟨keeps (.entries perm) here, fun entry held => below entry (perm.mem_iff.mpr held)⟩
  | properties perm complete =>
    obtain ⟨here, below⟩ := everywhere_structured.mp holds
    refine everywhere_structured.mpr ⟨keeps (.properties perm complete) here, fun value held => ?_⟩
    -- A value that stands under a property stood under the same one before.
    obtain ⟨field, listed, rfl⟩ := exists_field_of_mem complete held
    exact below field.2 (List.of_mem_zip (perm.mem_iff.mpr listed)).2
  | inField inner ih =>
    obtain ⟨here, below⟩ := everywhere_structured.mp holds
    exact everywhere_structured.mpr ⟨keeps (.inField inner) here, forall_mem_replaced below ih⟩
  | inItem inner ih =>
    obtain ⟨here, below⟩ := everywhere_list.mp holds
    exact everywhere_list.mpr ⟨keeps (.inItem inner) here, forall_mem_replaced below ih⟩
  | inEntry inner ih =>
    obtain ⟨here, below⟩ := everywhere_map.mp holds
    exact everywhere_map.mpr ⟨keeps (.inEntry inner) here, forall_mem_replaced below ih⟩

theorem isKeyed (reorders : Reorders before after) (keyed : before.isKeyed = true) :
    after.isKeyed = true := by
  cases reorders with
  | entries perm =>
    simp only [Node.isKeyed, opened?, Option.all_some, decide_eq_true_eq] at keyed ⊢
    exact (perm.map Prod.fst).nodup_iff.mp keyed
  | properties perm complete =>
    simp only [Node.isKeyed, opened?, Option.all_some, decide_eq_true_eq] at keyed ⊢
    exact ((perm.map _).map Prod.fst).nodup_iff.mp keyed
  | @inField schema front back old new inner =>
    -- The names only depend on how many values there are.
    have aligned : (front ++ old :: back).length = (front ++ new :: back).length := by simp
    have names := congrArg (List.map Property.name) (map_fst_zip_congr schema.properties aligned)
    simp only [Node.isKeyed, opened?, Option.all_some, decide_eq_true_eq, Entries.keys,
      List.map_map] at keyed names ⊢
    exact names ▸ keyed
  | inItem => rfl
  | inEntry => simpa [Node.isKeyed, opened?, Entries.keys] using keyed

theorem hasDistinctKeys (reorders : Reorders before after)
    (distinct : before.hasDistinctKeys = true) : after.hasDistinctKeys = true :=
  everywhere isKeyed reorders distinct

theorem blobsAreCanonical (reorders : Reorders before after)
    (blobs : before.blobsAreCanonical = true) : after.blobsAreCanonical = true :=
  everywhere (fun step _ => by cases step <;> rfl) reorders blobs

/-- **The document of a node does not depend on the order of its members**, as long as no key comes
twice: of two values the last would count. -/
theorem toJson_eq (reorders : Reorders before after) (distinct : before.hasDistinctKeys = true) :
    after.toJson = before.toJson := by
  induction reorders with
  | @entries before after perm =>
    have once : (Entries.keys before).Nodup := nodup_of_opened distinct rfl
    rw [toJson, toJson, jsonEntries_eq, jsonEntries_eq]
    refine (Json.ofMembers_eq_of_perm (perm.map _) ?_).symm
    simpa [Entries.keys, Function.comp_def] using once
  | @properties schema other before after perm =>
    have once := nodup_of_opened distinct rfl
    rw [toJson, toJson, jsonFields_eq, jsonFields_eq]
    refine (Json.ofMembers_eq_of_perm (perm.map _) ?_).symm
    simpa [Entries.keys, Function.comp_def] using once
  | @inField schema front back old new inner ih =>
    have inside := (everywhere_structured.mp distinct).2 old (by simp)
    have same : (front ++ new :: back).map toJson = (front ++ old :: back).map toJson := by
      simp [ih inside]
    rw [toJson, toJson, jsonFields_congr same]
  | @inItem element front back old new inner ih =>
    have inside := (everywhere_list.mp distinct).2 old (by simp)
    simp [toJson, jsonItems_eq, ih inside]
  | @inEntry key front back old new inner ih =>
    have inside := (everywhere_map.mp distinct).2 (key, old) (by simp)
    simp [toJson, jsonEntries_eq, ih inside]

end Reorders

end Node

end ModelFeed
