import ModelFeed.Proofs.Sameness
import ModelFeed.Node.Rendering
/-!
# Sub-views

A document is a sub-view of another if its objects have no other members, its arrays have the same
slots or empty containers in them, and the rest is equal. Of two nodes one looks like a sub-view of
the other if what it has under its names, or in its slots, does.
-/

namespace ModelFeed

namespace Json

/-- What a placeholder looks like. -/
def isHollow : Json → Bool
  | .array items => items.isEmpty
  | .object members => members.isEmpty
  | _ => false

mutual

/-- Whether a document shows nothing that another one does not show. -/
def isSubView : Json → Json → Bool
  | .array items, .array others => itemsAreSubView items others
  | .object members, .object others => membersAreSubView members others
  | a, b => a.same b

def itemsAreSubView : List Json → List Json → Bool
  | [], [] => true
  | item :: items, other :: others =>
    (item.isHollow || item.isSubView other) && itemsAreSubView items others
  | _, _ => false

def membersAreSubView : List (String × Json) → Entries Json → Bool
  | [], _ => true
  | (key, value) :: members, others =>
    (match Entries.get? key others with
    | some other => value.isSubView other
    | none => false) && membersAreSubView members others

end

theorem itemsAreSubView_iff {items others : List Json} :
    itemsAreSubView items others = true ↔
      List.Forall₂ (fun item other => item.isHollow = true ∨ item.isSubView other = true)
        items others := by
  induction items generalizing others with
  | nil => cases others <;> simp [itemsAreSubView]
  | cons item items ih => cases others <;> simp [itemsAreSubView, ih]

theorem membersAreSubView_iff {members : List (String × Json)} {others : Entries Json} :
    membersAreSubView members others = true ↔
      ∀ member ∈ members, ∃ other, Entries.get? member.1 others = some other ∧
        member.2.isSubView other = true := by
  induction members with
  | nil => simp [membersAreSubView]
  | cons member members ih =>
    obtain ⟨key, value⟩ := member
    rw [membersAreSubView, Bool.and_eq_true, ih, List.forall_mem_cons]
    cases Entries.get? key others <;> simp

theorem isSubView_refl {json : Json} (distinct : json.hasDistinctKeys = true) :
    json.isSubView json = true := by
  induction json using inductionOn with
  | scalar json leaf =>
    cases json <;> simp_all [isSubView, same, isContainer, Number.same_refl]
  | array items ih =>
    rw [isSubView, itemsAreSubView_iff, List.forall₂_same]
    intro item held
    exact .inr (ih item held (allHaveDistinctKeys_iff.mp distinct item held))
  | object members ih =>
    simp only [hasDistinctKeys, Bool.and_eq_true, decide_eq_true_eq] at distinct
    rw [isSubView, membersAreSubView_iff]
    intro member held
    refine ⟨member.2, Entries.get?_of_mem distinct.1 held, ?_⟩
    exact ih member held (membersHaveDistinctKeys_iff.mp distinct.2 member held)

/-! ### The members of an object -/

theorem insertMember_perm {key : String} {members : List (String × Json)}
    (absent : key ∉ Entries.keys members) (value : Json) :
    (insertMember key value members).Perm ((key, value) :: members) := by
  induction members with
  | nil => exact .refl _
  | cons member members ih =>
    obtain ⟨k, v⟩ := member
    simp only [Entries.keys, List.map_cons, List.mem_cons, not_or] at absent
    rw [insertMember, if_neg absent.1]
    split
    next => exact .refl _
    next => exact ((ih absent.2).cons _).trans (.swap ..)

/-- With distinct keys sorting only changes the order of the members. -/
theorem ofMembers_perm {members : List (String × Json)}
    (distinct : (Entries.keys members).Nodup) :
    ∃ sorted, ofMembers members = .object sorted ∧ sorted.Perm members := by
  have build : ∀ done : List (String × Json), (Entries.keys (done ++ members)).Nodup →
      (members.foldl (fun sorted member => insertMember member.1 member.2 sorted) done).Perm
        (done ++ members) := by
    clear distinct
    induction members with
    | nil => simp
    | cons member members ih =>
      obtain ⟨key, value⟩ := member
      intro done apart
      have absent := Entries.not_mem_keys_of_nodup apart
      have placed : (insertMember key value done ++ members).Perm
          (done ++ (key, value) :: members) :=
        ((insertMember_perm absent value).append_right members).trans List.perm_middle.symm
      exact (ih _ ((placed.map Prod.fst).nodup_iff.mpr apart)).trans placed
  exact ⟨_, rfl, build [] distinct⟩

end Json

/-! ### Documents of nodes -/

namespace Node

theorem jsonItems_eq (items : List Node) : jsonItems items = items.map toJson := by
  induction items with
  | nil => rfl
  | cons item items ih => rw [jsonItems, ih, List.map_cons]

theorem jsonEntries_eq (entries : List (String × Node)) :
    jsonEntries entries = entries.map fun entry => (entry.1, entry.2.toJson) := by
  induction entries with
  | nil => rfl
  | cons entry entries ih =>
    obtain ⟨key, value⟩ := entry
    rw [jsonEntries, ih, List.map_cons]

theorem jsonFields_eq (properties : List Property) (values : List Node) :
    jsonFields properties values =
      (properties.zip values).map fun field => (field.1.name, field.2.toJson) := by
  induction properties generalizing values with
  | nil => simp [jsonFields]
  | cons property properties ih => cases values <;> simp [jsonFields, ih]

theorem toJson_slot (json : Json) : json.slot.toJson = json := by
  cases json <;> rfl

/-- A node with named values is an object with these members, in some order. -/
theorem toJson_of_opened {node : Node} {named : Entries Node}
    (distinct : (Entries.keys named).Nodup) (opened : node.opened? = some named) :
    ∃ members, node.toJson = .object members ∧ (Entries.keys members).Nodup ∧
      members.Perm (named.map fun entry => (entry.1, entry.2.toJson)) := by
  have once : (Entries.keys (named.map fun entry => (entry.1, entry.2.toJson))).Nodup := by
    simpa [Entries.keys, Function.comp_def] using distinct
  have ordered : ∃ members, node.toJson = .object members ∧
      members.Perm (named.map fun entry => (entry.1, entry.2.toJson)) := by
    cases node with
    | structured schema values =>
      cases opened
      obtain ⟨sorted, ordered, perm⟩ := Json.ofMembers_perm once
      refine ⟨sorted, ?_, perm⟩
      rw [toJson, jsonFields_eq, ← ordered, List.map_map]
      rfl
    | map entries =>
      cases opened
      obtain ⟨sorted, ordered, perm⟩ := Json.ofMembers_perm once
      exact ⟨sorted, by rw [toJson, jsonEntries_eq, ordered], perm⟩
    | blob json =>
      -- The members of a fragment are shown as they stand.
      cases json with
      | object members =>
        cases opened
        refine ⟨members, rfl, ?_⟩
        simp [Function.comp_def, toJson]
      | _ => cases opened
    | _ => cases opened
  obtain ⟨members, rendered, perm⟩ := ordered
  exact ⟨members, rendered, (perm.map Prod.fst).nodup_iff.mpr once, perm⟩

theorem toJson_of_slots {node : Node} {element : ElementKind} {slots : List Node}
    (opened : node.slots? = some (element, slots)) : node.toJson = .array (slots.map toJson) := by
  cases node with
  | list kind items =>
    cases opened
    rw [toJson, jsonItems_eq]
  | blob json =>
    cases json with
    | array items =>
      cases opened
      have same : toJson ∘ Json.slot = id := funext toJson_slot
      rw [toJson, List.map_map, same, List.map_id]
    | _ => cases opened
  | _ => cases opened

theorem hasDistinctKeys_toJson_of_opened {node : Node} {named : Entries Node}
    (distinct : (Entries.keys named).Nodup) (opened : node.opened? = some named)
    (values : ∀ key value, (key, value) ∈ named → value.toJson.hasDistinctKeys = true) :
    node.toJson.hasDistinctKeys = true := by
  obtain ⟨members, rendered, once, perm⟩ := toJson_of_opened distinct opened
  rw [rendered, Json.hasDistinctKeys, Bool.and_eq_true, decide_eq_true_eq,
    membersHaveDistinctKeys_iff]
  refine ⟨once, fun member held => ?_⟩
  obtain ⟨⟨key, value⟩, listed, rfl⟩ := List.mem_map.mp (perm.mem_iff.mp held)
  exact values key value listed

theorem hasDistinctKeys_toJson {node : Node} (distinct : node.hasDistinctKeys = true) :
    node.toJson.hasDistinctKeys = true := by
  induction node using inductionOn with
  | scalar node leaf => cases node <;> first | rfl | cases leaf
  | structured schema values ih =>
    refine hasDistinctKeys_toJson_of_opened (nodup_of_opened distinct rfl) rfl ?_
    intro key value held
    obtain ⟨field, member, same⟩ := List.mem_map.mp held
    cases same
    exact ih field.2 (List.of_mem_zip member).2 (hasDistinctKeys_of_opened distinct rfl held)
  | list element items ih =>
    rw [toJson, jsonItems_eq, Json.hasDistinctKeys, allHaveDistinctKeys_iff]
    intro json rendered
    obtain ⟨item, member, rfl⟩ := List.mem_map.mp rendered
    exact ih item member (hasDistinctKeys_of_slots distinct rfl member)
  | map entries ih =>
    refine hasDistinctKeys_toJson_of_opened (nodup_of_opened distinct rfl) rfl ?_
    intro key value held
    exact ih (key, value) held (hasDistinctKeys_of_opened distinct rfl held)
  | blob json => exact here_of_everywhere distinct

/-! ### Sub-views among documents of nodes -/

/-- Of nodes with named values one is a sub-view if its values are, under their keys. -/
theorem isSubView_iff_of_opened {part whole : Node} {entries named : Entries Node}
    (once : (Entries.keys entries).Nodup) (own : part.opened? = some entries)
    (apart : (Entries.keys named).Nodup) (opened : whole.opened? = some named) :
    part.toJson.isSubView whole.toJson = true ↔
      ∀ key value, Entries.get? key entries = some value →
        ∃ other, Entries.get? key named = some other ∧
          value.toJson.isSubView other.toJson = true := by
  -- Documents may show the members in another order, but each member comes from one entry.
  obtain ⟨members, rendered, -, perm⟩ := toJson_of_opened once own
  obtain ⟨others, renderedWhole, onceWhole, permWhole⟩ := toJson_of_opened apart opened
  rw [rendered, renderedWhole, Json.isSubView, Json.membersAreSubView_iff]
  constructor
  · intro below key value found
    have member : (key, value.toJson) ∈ members :=
      perm.mem_iff.mpr (List.mem_map.mpr ⟨_, Entries.mem_of_get? found, rfl⟩)
    obtain ⟨other, present, shown⟩ := below _ member
    obtain ⟨entry, listed, same⟩ :=
      List.mem_map.mp (permWhole.mem_iff.mp (Entries.mem_of_get? present))
    cases same
    exact ⟨entry.2, Entries.get?_of_mem apart listed, shown⟩
  · intro values member held
    obtain ⟨entry, listed, rfl⟩ := List.mem_map.mp (perm.mem_iff.mp held)
    obtain ⟨other, found, shown⟩ := values entry.1 entry.2 (Entries.get?_of_mem once listed)
    refine ⟨other.toJson, Entries.get?_of_mem onceWhole (permWhole.mem_iff.mpr ?_), shown⟩
    exact List.mem_map.mpr ⟨_, Entries.mem_of_get? found, rfl⟩

/-- Of lists or arrays one is a sub-view if its slots are, or show nothing. -/
theorem isSubView_iff_of_slots {part whole : Node} {element kind : ElementKind}
    {items slots : List Node} (own : part.slots? = some (element, items))
    (opened : whole.slots? = some (kind, slots)) :
    part.toJson.isSubView whole.toJson = true ↔
      List.Forall₂ (fun item slot => item.toJson.isHollow = true ∨
        item.toJson.isSubView slot.toJson = true) items slots := by
  rw [toJson_of_slots own, toJson_of_slots opened, Json.isSubView, Json.itemsAreSubView_iff,
    List.forall₂_map_left_iff, List.forall₂_map_right_iff]

end Node

end ModelFeed
