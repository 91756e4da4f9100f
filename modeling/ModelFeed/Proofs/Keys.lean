import Mathlib.Data.List.Induction
import Mathlib.Data.List.Perm.Subperm
import ModelFeed.Proofs.Everywhere
/-!
# Distinct keys

Entries are stored as a list, so a key might stand there twice. It never does: schemas, maps and
fragments have each key once. For such entries the look-up of a key and the membership of a pair are
one thing, and a selection of them is a list of entries as it stands.
-/

namespace ModelFeed

namespace Entries

variable {α β : Type} {key : String} {value : α} {entries : Entries α}

theorem mem_of_get? (h : get? key entries = some value) : (key, value) ∈ entries := by
  obtain ⟨front, back, rfl, -⟩ := exists_split_of_get? h
  simp

theorem get?_eq_none_iff : get? key entries = none ↔ key ∉ keys entries := by
  rw [← get?_isSome_iff, Bool.not_eq_true, Option.isSome_eq_false_iff, Option.isNone_iff_eq_none]

theorem mem_keys_of_mem (member : (key, value) ∈ entries) : key ∈ keys entries :=
  List.mem_map_of_mem (f := Prod.fst) member

theorem nodup_keys_cons : (keys ((key, value) :: entries)).Nodup ↔
    key ∉ keys entries ∧ (keys entries).Nodup :=
  List.nodup_cons

/-- A key that is still to come is not among those that are there. -/
theorem not_mem_keys_of_nodup {done : Entries α}
    (distinct : (keys (done ++ (key, value) :: entries)).Nodup) : key ∉ keys done := by
  intro held
  simp only [keys, List.map_append, List.map_cons] at distinct
  exact (List.nodup_append.mp distinct).2.2 key held key List.mem_cons_self rfl

theorem get?_of_mem (distinct : (keys entries).Nodup) (member : (key, value) ∈ entries) :
    get? key entries = some value := by
  induction entries with
  | nil => simp at member
  | cons entry entries ih =>
    obtain ⟨k, v⟩ := entry
    obtain ⟨fresh, distinct⟩ := nodup_keys_cons.mp distinct
    rcases List.mem_cons.mp member with here | later
    · cases here
      simp [get?_cons]
    · have other : k ≠ key := by
        rintro rfl
        exact fresh (mem_keys_of_mem later)
      rw [get?_cons, if_neg other]
      exact ih distinct later

theorem insert_of_not_mem (absent : key ∉ keys entries) (value : α) :
    insert key value entries = entries ++ [(key, value)] := by
  induction entries with
  | nil => rfl
  | cons entry entries ih =>
    obtain ⟨k, v⟩ := entry
    simp only [keys, List.map_cons, List.mem_cons, not_or] at absent
    simp [insert, Ne.symm absent.1, ih absent.2]

theorem insert_of_get? (found : get? key entries = some value) :
    insert key value entries = entries := by
  obtain ⟨front, back, rfl, inserted⟩ := exists_split_of_get? found
  exact inserted value

theorem keys_insert_of_mem (present : key ∈ keys entries) (value : α) :
    keys (insert key value entries) = keys entries := by
  cases found : get? key entries with
  | none => exact absurd present (get?_eq_none_iff.mp found)
  | some old =>
    obtain ⟨front, back, rfl, inserted⟩ := exists_split_of_get? found
    simp [inserted, keys]

theorem nodup_keys_insert (distinct : (keys entries).Nodup) (key : String) (value : α) :
    (keys (insert key value entries)).Nodup := by
  by_cases present : key ∈ keys entries
  · rwa [keys_insert_of_mem present]
  · rw [insert_of_not_mem present]
    simp only [keys, List.map_append, List.map_cons, List.map_nil]
    exact List.nodup_append.mpr ⟨distinct, by simp, by
      rintro k held _ last rfl
      rw [List.mem_singleton] at last
      subst last
      exact present held⟩

theorem mem_insert {entry : String × α} (h : entry ∈ insert key value entries) :
    entry = (key, value) ∨ entry ∈ entries := by
  induction entries with
  | nil => exact .inl (List.mem_singleton.mp h)
  | cons first rest ih =>
    obtain ⟨k, v⟩ := first
    unfold insert at h
    split at h
    next same =>
      subst same
      exact (List.mem_cons.mp h).imp_right (List.mem_cons_of_mem _)
    next =>
      rcases List.mem_cons.mp h with rfl | later
      · exact .inr List.mem_cons_self
      · exact (ih later).imp_right (List.mem_cons_of_mem _)

/-- Entries are given by the order of their keys and the value of each key. -/
theorem ext {others : Entries α} (distinct : (keys entries).Nodup)
    (order : keys entries = keys others)
    (values : ∀ key, get? key entries = get? key others) : entries = others := by
  induction entries generalizing others with
  | nil => exact (List.map_eq_nil_iff.mp order.symm).symm
  | cons entry entries ih =>
    obtain ⟨k, v⟩ := entry
    cases others with
    | nil => cases order
    | cons other others =>
      obtain ⟨l, w⟩ := other
      obtain ⟨rfl, later⟩ : k = l ∧ keys entries = keys others := List.cons.inj order
      obtain ⟨fresh, distinct⟩ := nodup_keys_cons.mp distinct
      have first : v = w := by simpa [get?_cons] using values k
      rw [first, ih distinct later]
      intro key
      by_cases here : k = key
      · -- The first key does not come again on either side.
        subst here
        rw [get?_eq_none_iff.mpr fresh, get?_eq_none_iff.mpr (later ▸ fresh)]
      · simpa [get?_cons, here] using values key

theorem insert_ne_nil (key : String) (value : α) (entries : Entries α) :
    insert key value entries ≠ [] := by
  cases entries with
  | nil => exact List.cons_ne_nil _ _
  | cons entry entries =>
    unfold insert
    split <;> exact List.cons_ne_nil _ _

theorem ofList_concat (pairs : List (String × α)) (pair : String × α) :
    ofList (pairs ++ [pair]) = insert pair.1 pair.2 (ofList pairs) := by
  simp [ofList]

theorem ofList_ne_nil {pairs : List (String × α)} (nonempty : pairs ≠ []) : ofList pairs ≠ [] := by
  obtain ⟨front, last, rfl⟩ := (List.eq_nil_or_concat pairs).resolve_left nonempty
  rw [List.concat_eq_append, ofList_concat]
  exact insert_ne_nil _ _ _

theorem mem_of_mem_ofList {pairs : List (String × α)} {entry : String × α}
    (h : entry ∈ ofList pairs) : entry ∈ pairs := by
  induction pairs using List.reverseRecOn with
  | nil => exact h
  | append_singleton front last ih =>
    rw [ofList_concat] at h
    rcases mem_insert h with rfl | earlier
    · exact List.mem_append_right _ List.mem_cons_self
    · exact List.mem_append_left _ (ih earlier)

/-- Pairs with repeated keys become entries without. -/
theorem nodup_keys_ofList (pairs : List (String × α)) : (keys (ofList pairs)).Nodup := by
  induction pairs using List.reverseRecOn with
  | nil => exact List.nodup_nil
  | append_singleton front last ih =>
    rw [ofList_concat]
    exact nodup_keys_insert ih _ _

/-- Entries that are inserted one after the other come to stand as they were. -/
theorem ofList_eq_self {pairs : List (String × α)} (distinct : (keys pairs).Nodup) :
    ofList pairs = pairs := by
  have build : ∀ done : Entries α, (keys (done ++ pairs)).Nodup →
      pairs.foldl (fun entries pair => insert pair.1 pair.2 entries) done = done ++ pairs := by
    induction pairs with
    | nil => simp
    | cons pair pairs ih =>
      obtain ⟨k, v⟩ := pair
      intro done apart
      have absent := not_mem_keys_of_nodup apart
      rw [List.foldl_cons, insert_of_not_mem absent, ih (nodup_keys_cons.mp distinct).2]
      · simp
      · simpa using apart
  exact build [] distinct

/-- A selection of entries has their keys once as well. -/
theorem nodup_keys_filterMap {γ : Type} {select : γ → Option (String × β)} {nameOf : γ → String}
    (kept : ∀ c pair, select c = some pair → pair.1 = nameOf c) {list : List γ}
    (distinct : (list.map nameOf).Nodup) : (keys (list.filterMap select)).Nodup := by
  induction list with
  | nil => simp [keys]
  | cons c list ih =>
    simp only [List.map_cons, List.nodup_cons] at distinct
    rw [List.filterMap_cons]
    split
    next => exact ih distinct.2
    next pair selected =>
      simp only [keys, List.map_cons, List.nodup_cons]
      refine ⟨fun again => ?_, ih distinct.2⟩
      -- A key that came again would come from another element of the same name.
      obtain ⟨later, member, same⟩ := List.mem_map.mp again
      obtain ⟨d, listed, found⟩ := List.mem_filterMap.mp member
      rw [kept d later found, kept c pair selected] at same
      exact distinct.1 (List.mem_map.mpr ⟨d, listed, same⟩)

end Entries

/-! ### Named values and slots -/

mutual

/-- Whether every object of a fragment has each key once. -/
def Json.hasDistinctKeys : Json → Bool
  | .array items => allHaveDistinctKeys items
  | .object members => (Entries.keys members).Nodup && membersHaveDistinctKeys members
  | _ => true

def allHaveDistinctKeys : List Json → Bool
  | [] => true
  | item :: items => item.hasDistinctKeys && allHaveDistinctKeys items

def membersHaveDistinctKeys : List (String × Json) → Bool
  | [] => true
  | (_, value) :: members => value.hasDistinctKeys && membersHaveDistinctKeys members

end

theorem allHaveDistinctKeys_iff {items : List Json} :
    allHaveDistinctKeys items = true ↔ ∀ item ∈ items, item.hasDistinctKeys = true := by
  induction items with
  | nil => simp [allHaveDistinctKeys]
  | cons item items ih => simp [allHaveDistinctKeys, ih]

theorem membersHaveDistinctKeys_iff {members : List (String × Json)} :
    membersHaveDistinctKeys members = true ↔
      ∀ member ∈ members, member.2.hasDistinctKeys = true := by
  induction members with
  | nil => simp [membersHaveDistinctKeys]
  | cons member members ih =>
    obtain ⟨key, value⟩ := member
    simp [membersHaveDistinctKeys, ih]

/-- An item of an array as a slot of a list. -/
def Json.slot : Json → Node
  | .null => .null
  | item => .blob item

namespace Node

/-- The values that a node has under names, those of a fragment included. -/
def opened? : Node → Option (Entries Node)
  | .structured schema values =>
    some ((schema.properties.zip values).map fun field => (field.1.name, field.2))
  | .map entries => some entries
  | .blob (.object members) => some (members.map fun member => (member.1, .blob member.2))
  | _ => none

/-- The slots of a list or of an array, and of what kind they are. -/
def slots? : Node → Option (ElementKind × List Node)
  | .list element items => some (element, items)
  | .blob (.array items) => some (.scalar, items.map Json.slot)
  | _ => none

theorem slots?_of_opened {node : Node} {entries : Entries Node}
    (h : node.opened? = some entries) : node.slots? = none := by
  cases node with
  | blob json => cases json <;> simp_all [opened?, slots?]
  | _ => simp_all [opened?, slots?]

/-- Whether a node has each key once, and so has every fragment. -/
def isKeyed : Node → Bool
  | .blob json => json.hasDistinctKeys
  | node => node.opened?.all fun entries => (Entries.keys entries).Nodup

/-- Whether every node of a model has each key once. -/
def hasDistinctKeys (node : Node) : Bool :=
  node.everywhere isKeyed

variable {node value : Node} {entries : Entries Node} {element : ElementKind} {items : List Node}

theorem nodup_of_opened (distinct : node.hasDistinctKeys = true)
    (opened : node.opened? = some entries) : (Entries.keys entries).Nodup := by
  have keyed : node.isKeyed = true := here_of_everywhere distinct
  cases node with
  | blob json =>
    cases json with
    | object members =>
      cases opened
      simp only [isKeyed, Json.hasDistinctKeys, Bool.and_eq_true, decide_eq_true_eq] at keyed
      simpa [Entries.keys, Function.comp_def] using keyed.1
    | _ => cases opened
  | _ => simp_all [isKeyed, opened?]

theorem hasDistinctKeys_of_opened (distinct : node.hasDistinctKeys = true)
    (opened : node.opened? = some entries) {key : String} (held : (key, value) ∈ entries) :
    value.hasDistinctKeys = true := by
  cases node with
  | structured schema values =>
    cases opened
    obtain ⟨⟨property, inner⟩, field, same⟩ := List.mem_map.mp held
    cases same
    exact (everywhere_structured.mp distinct).2 _ (List.of_mem_zip field).2
  | map entries =>
    cases opened
    exact (everywhere_map.mp distinct).2 _ held
  | blob json =>
    cases json with
    | object members =>
      cases opened
      obtain ⟨member, listed, same⟩ := List.mem_map.mp held
      cases same
      have keyed : Json.hasDistinctKeys (.object members) = true := here_of_everywhere distinct
      simp only [Json.hasDistinctKeys, Bool.and_eq_true, membersHaveDistinctKeys_iff] at keyed
      exact keyed.2 member listed
    | _ => cases opened
  | _ => cases opened

theorem hasDistinctKeys_of_slots (distinct : node.hasDistinctKeys = true)
    (slots : node.slots? = some (element, items)) (held : value ∈ items) :
    value.hasDistinctKeys = true := by
  cases node with
  | list element items =>
    cases slots
    exact (everywhere_list.mp distinct).2 value held
  | blob json =>
    cases json with
    | array items =>
      cases slots
      obtain ⟨item, listed, rfl⟩ := List.mem_map.mp held
      have keyed : Json.hasDistinctKeys (.array items) = true := here_of_everywhere distinct
      simp only [Json.hasDistinctKeys, allHaveDistinctKeys_iff] at keyed
      have inside := keyed item listed
      cases item <;> exact inside
    | _ => cases slots
  | _ => cases slots

end Node

end ModelFeed
