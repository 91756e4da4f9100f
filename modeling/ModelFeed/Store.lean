import ModelFeed.Machine
import ModelFeed.Node.Addressed
/-!
# The store

The store holds the live model and counts the mutations applied to it. Every mutation leaves a store
behind, whether it succeeds or not. One that succeeds reports the path of what it changed; one that
fails has written nothing yet.
-/

namespace ModelFeed

structure Store where
  root : Node
  /-- The number of mutations applied so far. -/
  sequence : Nat := 0

namespace Store

def ofRoot (root : Node) : Store := { root }

/-- A store for a machine about which nothing is known yet. -/
def blank : Store := ofRoot Machine.blank

def get? (store : Store) (path : Path) : Option Node :=
  store.root.get? path

def advance (store : Store) (root : Node) : Store :=
  ⟨root, store.sequence + 1⟩

/-- Edits the model and counts the edit, which is reported as a change of a path. -/
def edit (change : Edit) (path : Path) (store : Store) : Store × Except ModelError Path :=
  match change store.root with
  | .error error => (store, .error error)
  | .ok root => (store.advance root, .ok path)

/-- Replaces the value at a path. The root itself cannot be replaced. -/
def set (path : Path) (value : Node) (store : Store) : Store × Except ModelError Path :=
  match path.splitLast? with
  | none => (store, .error (.invalidPath []))
  | some (parents, last) => store.edit (Node.modifyAt parents (Node.replaceChild last value)) path

/-- Appends an item to the list at a path, which ends in the bare name of the list. -/
def push (path : Path) (item : Node) (store : Store) : Store × Except ModelError Path :=
  match path.splitLast? with
  | none => (store, .error (.invalidPath []))
  | some (_, .item ..) => (store, .error (.invalidPath path))
  | some (parents, .member name) =>
    -- The new item stands after those that were there.
    let length := ((store.get? path).bind Node.items?).elim 0 List.length
    store.edit (Node.modifyAt parents (Node.pushChild path name item))
      (parents ++ [.item name length])

/-- The name of the map that holds the global variables. -/
def globals : String := "global"

/-- Sets a global variable, and creates it if necessary. -/
def setGlobal (name : String) (value : Node) : Store → Store × Except ModelError Path :=
  set [.member globals, .member name] value

/-- Deletes a global variable, if it is there. -/
def removeGlobal (name : String) (store : Store) : Store × Option Path :=
  match store.root.member? globals with
  | some (.map entries) =>
    match Entries.findKey? name entries with
    | none => (store, none)
    | some key =>
      let remaining := Node.map (Entries.erase key entries)
      -- The map was found behind the name, so this edit cannot be refused.
      match store.edit (Node.modifyMember globals fun _ => .ok remaining)
          [.member globals, .member key] with
      | (after, .ok changed) => (after, some changed)
      | (after, .error _) => (after, none)
  | _ => (store, none)

/-! ### What a mutation leaves behind -/

variable {store after : Store} {change : Edit} {path changed : Path} {value item : Node}
  {name : String} {error : ModelError}

theorem edit_eq_ok (h : store.edit change path = (after, .ok changed)) :
    changed = path ∧ change store.root = .ok after.root ∧
      after.sequence = store.sequence + 1 := by
  unfold edit at h
  split at h
  next => simp at h
  next root edited =>
    cases h
    exact ⟨rfl, edited, rfl⟩

theorem edit_of_error (h : store.edit change path = (after, .error error)) : after = store := by
  unfold edit at h
  split at h
  next =>
    cases h
    rfl
  next => simp at h

/-- An assignment edits the node at the parents of its path, and reports the path it was given. -/
theorem set_eq_ok (h : store.set path value = (after, .ok changed)) :
    ∃ parents last, path = parents ++ [last] ∧ changed = path ∧
      Node.modifyAt parents (Node.replaceChild last value) store.root = .ok after.root ∧
      after.sequence = store.sequence + 1 := by
  unfold set at h
  split at h
  next => simp at h
  next parents last split =>
    obtain ⟨reported, edited, counted⟩ := edit_eq_ok h
    exact ⟨parents, last, Path.splitLast?_eq_some_iff.mp split, reported, edited, counted⟩

theorem set_of_error (h : store.set path value = (after, .error error)) : after = store := by
  unfold set at h
  split at h
  next =>
    cases h
    rfl
  next => exact edit_of_error h

/-- An appended item is reported with the length of the list before. -/
theorem push_eq_ok (h : store.push path item = (after, .ok changed)) :
    ∃ parents name, path = parents ++ [.member name] ∧
      changed = parents ++ [.item name (((store.get? path).bind Node.items?).elim 0 List.length)] ∧
      Node.modifyAt parents (Node.pushChild path name item) store.root = .ok after.root ∧
      after.sequence = store.sequence + 1 := by
  unfold push at h
  split at h
  next => simp at h
  next => simp at h
  next parents name split =>
    obtain ⟨reported, edited, counted⟩ := edit_eq_ok h
    exact ⟨parents, name, Path.splitLast?_eq_some_iff.mp split, reported, edited, counted⟩

theorem push_of_error (h : store.push path item = (after, .error error)) : after = store := by
  unfold push at h
  split at h
  next =>
    cases h
    rfl
  next =>
    cases h
    rfl
  next => exact edit_of_error h

/-- A deleted variable is reported with the spelling that was found. -/
theorem removeGlobal_eq_some (h : store.removeGlobal name = (after, some changed)) :
    ∃ entries key, store.root.member? globals = some (.map entries) ∧
      Entries.findKey? name entries = some key ∧ changed = [.member globals, .member key] ∧
      Node.modifyMember globals (fun _ => .ok (.map (Entries.erase key entries))) store.root =
        .ok after.root ∧
      after.sequence = store.sequence + 1 := by
  unfold removeGlobal at h
  split at h
  next entries held =>
    split at h
    next => simp at h
    next key located =>
      dsimp only at h
      split at h
      next edited =>
        cases h
        obtain ⟨reported, erased, counted⟩ := edit_eq_ok edited
        exact ⟨entries, key, held, located, reported, erased, counted⟩
      next => simp at h
  next => simp at h

theorem removeGlobal_of_none (h : store.removeGlobal name = (after, none)) : after = store := by
  unfold removeGlobal at h
  split at h
  next =>
    split at h
    next =>
      cases h
      rfl
    next =>
      dsimp only at h
      split at h
      next => simp at h
      next edited =>
        cases h
        exact edit_of_error edited
  next =>
    cases h
    rfl

end Store

end ModelFeed
