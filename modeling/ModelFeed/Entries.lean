import ModelFeed.Text.Name
/-!
# Entries in insertion order

Maps keep their entries in the order in which the keys were first inserted. A key is looked up as
it is spelled, and if no key is spelled that way, the first key of the same name is meant.
-/

namespace ModelFeed

variable {α β : Type}

abbrev Entries (α : Type) := List (String × α)

namespace Entries

def get? (key : String) : Entries α → Option α
  | [] => none
  | (k, v) :: rest => if k = key then some v else get? key rest

/-- A present key keeps its place and takes the new value; a new key goes to the end. -/
def insert (key : String) (value : α) : Entries α → Entries α
  | [] => [(key, value)]
  | (k, v) :: rest => if k = key then (k, value) :: rest else (k, v) :: insert key value rest

def erase (key : String) (entries : Entries α) : Entries α :=
  entries.filter fun entry => entry.1 != key

/-- The entries of a list of pairs, inserted one after the other. -/
def ofList (pairs : List (String × α)) : Entries α :=
  pairs.foldl (fun entries pair => insert pair.1 pair.2 entries) []

def keys (entries : Entries α) : List String :=
  entries.map Prod.fst

/-- The spelling under which a name is present: the exact one, else the first of the same name. -/
def findKey? (name : String) (entries : Entries α) : Option String :=
  if name ∈ keys entries then some name else (keys entries).find? (sameName · name)

/-- The entry a name means. -/
def resolve? (name : String) (entries : Entries α) : Option (String × α) :=
  (findKey? name entries).bind fun key => (get? key entries).map (key, ·)

def lookup? (name : String) (entries : Entries α) : Option α :=
  (resolve? name entries).map Prod.snd

@[simp] theorem get?_nil (key : String) : get? key ([] : Entries α) = none := rfl

theorem get?_cons (key k : String) (v : α) (rest : Entries α) :
    get? key ((k, v) :: rest) = if k = key then some v else get? key rest := rfl

theorem get?_insert_self (key : String) (value : α) (entries : Entries α) :
    get? key (insert key value entries) = some value := by
  induction entries with
  | nil => simp [insert, get?]
  | cons entry rest ih =>
    obtain ⟨k, v⟩ := entry
    by_cases h : k = key <;> simp [insert, get?, h, ih]

theorem get?_insert_of_ne {key other : String} (h : key ≠ other) (value : α)
    (entries : Entries α) : get? other (insert key value entries) = get? other entries := by
  induction entries with
  | nil => simp [insert, get?, h]
  | cons entry rest ih =>
    obtain ⟨k, v⟩ := entry
    by_cases hk : k = key
    · subst hk
      simp [insert, get?, h]
    · simp [insert, get?, hk, ih]

theorem get?_isSome_iff (key : String) (entries : Entries α) :
    (get? key entries).isSome = true ↔ key ∈ keys entries := by
  induction entries with
  | nil => simp [get?, keys]
  | cons entry rest ih =>
    obtain ⟨k, v⟩ := entry
    by_cases h : k = key
    · simp [get?, keys, h]
    · simp only [get?, h, if_false, ih]
      simp [keys, Ne.symm h]

end Entries

end ModelFeed
