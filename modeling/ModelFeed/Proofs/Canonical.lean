import Mathlib.Data.String.Basic
import ModelFeed.Proofs.SubView
/-!
# Canonical documents

In a canonical document the keys of every object ascend, so none of them is repeated. Sorting leaves
such a document as it is. A node looks canonical as a document if the fragments stored in it do,
whatever the order of its entries and properties.
-/

namespace ModelFeed

namespace Json

/-- Whether the keys ascend, if this is an object. -/
def keysAscend : Json → Bool
  | .object members => decide ((Entries.keys members).Pairwise (· < ·))
  | _ => true

/-- Whether the keys of all objects in a document ascend. -/
def isCanonical (json : Json) : Bool :=
  json.everywhere keysAscend

variable {members : List (String × Json)} {items : List Json} {key : String} {value : Json}

theorem isCanonical_array : (array items).isCanonical = true ↔
    ∀ item ∈ items, item.isCanonical = true := by
  simp [isCanonical, everywhere_array, keysAscend]

theorem isCanonical_object : (object members).isCanonical = true ↔
    (Entries.keys members).Pairwise (· < ·) ∧
      ∀ member ∈ members, member.2.isCanonical = true := by
  simp [isCanonical, everywhere_object, keysAscend]

/-! ### Inserting members -/

theorem mem_insertMember {member : String × Json} (h : member ∈ insertMember key value members) :
    member = (key, value) ∨ member ∈ members := by
  induction members with
  | nil => exact .inl (List.mem_singleton.mp h)
  | cons first rest ih =>
    obtain ⟨k, v⟩ := first
    unfold insertMember at h
    split at h
    next same =>
      subst same
      exact (List.mem_cons.mp h).imp_right (List.mem_cons_of_mem _)
    next =>
      split at h
      next => exact List.mem_cons.mp h
      next =>
        rcases List.mem_cons.mp h with rfl | later
        · exact .inr List.mem_cons_self
        · exact (ih later).imp_right (List.mem_cons_of_mem _)

theorem keys_insertMember_ascend (ascend : (Entries.keys members).Pairwise (· < ·)) (key : String)
    (value : Json) : (Entries.keys (insertMember key value members)).Pairwise (· < ·) := by
  induction members with
  | nil => exact List.pairwise_singleton ..
  | cons first rest ih =>
    obtain ⟨k, v⟩ := first
    obtain ⟨above, ascendRest⟩ := List.pairwise_cons.mp ascend
    unfold insertMember
    split
    next same =>
      subst same
      exact ascend
    next other =>
      split
      next below =>
        refine List.pairwise_cons.mpr ⟨?_, ascend⟩
        intro later member
        rcases List.mem_cons.mp member with rfl | member
        · exact below
        · exact below.trans (above later member)
      next notBelow =>
        refine List.pairwise_cons.mpr ⟨?_, ih ascendRest⟩
        intro later member
        -- What follows is the new key or one of those that followed before.
        obtain ⟨⟨_, _⟩, held, rfl⟩ := List.mem_map.mp member
        rcases mem_insertMember held with same | held
        · cases same
          exact lt_of_le_of_ne (not_lt.mp notBelow) (Ne.symm other)
        · exact above _ (Entries.mem_keys_of_mem held)

/-! ### Sorting members -/

variable {sorted : List (String × Json)}

theorem keys_ofMembers_ascend (h : ofMembers members = .object sorted) :
    (Entries.keys sorted).Pairwise (· < ·) := by
  cases h
  exact List.foldlRecOn (motive := fun sorted => (Entries.keys sorted).Pairwise (· < ·)) members _
    .nil fun _ ascend member _ => keys_insertMember_ascend ascend member.1 member.2

theorem mem_of_mem_ofMembers (h : ofMembers members = .object sorted) :
    ∀ member ∈ sorted, member ∈ members := by
  cases h
  refine List.foldlRecOn (motive := fun sorted => ∀ member ∈ sorted, member ∈ members) members _
    (by simp) ?_
  intro _ earlier member listed other held
  rcases mem_insertMember held with rfl | held
  · exact listed
  · exact earlier other held

theorem isCanonical_ofMembers (values : ∀ member ∈ members, member.2.isCanonical = true) :
    (ofMembers members).isCanonical = true :=
  isCanonical_object.mpr ⟨keys_ofMembers_ascend rfl, fun member held =>
    values member (mem_of_mem_ofMembers rfl member held)⟩

/-- Only one order of the members is sorted. -/
theorem eq_of_perm_of_ascend {others : List (String × Json)} (perm : members.Perm others)
    (ascend : (Entries.keys members).Pairwise (· < ·))
    (ascendOthers : (Entries.keys others).Pairwise (· < ·)) : members = others := by
  have below : members.Pairwise fun a b => a.1 < b.1 := List.pairwise_map.mp ascend
  have belowOthers : others.Pairwise fun a b => a.1 < b.1 := List.pairwise_map.mp ascendOthers
  exact perm.eq_of_pairwise (fun _ _ _ _ ab ba => absurd ba ab.asymm) below belowOthers

/-- Sorting leaves sorted members as they are. -/
theorem ofMembers_of_ascend (ascend : (Entries.keys members).Pairwise (· < ·)) :
    ofMembers members = .object members := by
  have distinct : (Entries.keys members).Nodup := ascend.imp fun below => below.ne
  obtain ⟨sorted, own, perm⟩ := ofMembers_perm distinct
  rw [own, eq_of_perm_of_ascend perm (keys_ofMembers_ascend own) ascend]

/-- With distinct keys it does not matter in which order the members come to be sorted. -/
theorem ofMembers_eq_of_perm {others : List (String × Json)} (perm : members.Perm others)
    (distinct : (Entries.keys members).Nodup) : ofMembers members = ofMembers others := by
  have distinctOthers := (perm.map Prod.fst).nodup_iff.mp distinct
  obtain ⟨sorted, own, permSorted⟩ := ofMembers_perm distinct
  obtain ⟨sortedOthers, other, permOthers⟩ := ofMembers_perm distinctOthers
  have same : sorted = sortedOthers :=
    eq_of_perm_of_ascend ((permSorted.trans perm).trans permOthers.symm)
      (keys_ofMembers_ascend own) (keys_ofMembers_ascend other)
  rw [own, other, same]

/-! ### Canonical forms -/

theorem canonicalItems_eq (items : List Json) : canonicalItems items = items.map canonical := by
  induction items with
  | nil => rfl
  | cons item items ih => rw [canonicalItems, ih, List.map_cons]

theorem canonicalMembers_eq (members : List (String × Json)) :
    canonicalMembers members = members.map fun member => (member.1, member.2.canonical) := by
  induction members with
  | nil => rfl
  | cons member members ih =>
    obtain ⟨key, value⟩ := member
    rw [canonicalMembers, ih, List.map_cons]

/-- A canonical document is its own canonical form. -/
theorem canonical_eq_self {json : Json} (h : json.isCanonical = true) : json.canonical = json := by
  induction json using inductionOn with
  | scalar json leaf => cases json <;> first | rfl | cases leaf
  | array items ih =>
    have inside := isCanonical_array.mp h
    rw [canonical, canonicalItems_eq, List.map_congr_left fun item held =>
      ih item held (inside item held), List.map_id']
  | object members ih =>
    obtain ⟨ascend, inside⟩ := isCanonical_object.mp h
    have same : canonicalMembers members = members := by
      rw [canonicalMembers_eq, List.map_congr_left fun member held => by
        rw [ih member held (inside member held)], List.map_id']
    rw [canonical, same, ofMembers_of_ascend ascend]

end Json

/-! ### Nodes as documents -/

namespace Node

/-- Whether a stored fragment, if this is one, is canonical. -/
def keepsCanonical : Node → Bool
  | .blob json => json.isCanonical
  | _ => true

/-- Whether all fragments stored in a model are canonical. -/
def blobsAreCanonical (node : Node) : Bool :=
  node.everywhere keepsCanonical

theorem isCanonical_toJson {node : Node} (blobs : node.blobsAreCanonical = true) :
    node.toJson.isCanonical = true := by
  induction node using inductionOn with
  | scalar node leaf => cases node <;> first | rfl | cases leaf
  | structured schema values ih =>
    have inside := (everywhere_structured.mp blobs).2
    rw [toJson, jsonFields_eq]
    refine Json.isCanonical_ofMembers (List.forall_mem_map.mpr fun field listed => ?_)
    have member := (List.of_mem_zip listed).2
    exact ih field.2 member (inside field.2 member)
  | list element items ih =>
    have inside := (everywhere_list.mp blobs).2
    rw [toJson, jsonItems_eq, Json.isCanonical_array]
    exact List.forall_mem_map.mpr fun item held => ih item held (inside item held)
  | map entries ih =>
    have inside := (everywhere_map.mp blobs).2
    rw [toJson, jsonEntries_eq]
    exact Json.isCanonical_ofMembers
      (List.forall_mem_map.mpr fun entry held => ih entry held (inside entry held))
  | blob json => exact blobs

end Node

end ModelFeed
