import ModelFeed.Node.Basic
/-!
# The items of a list

Lists grow at the end and shrink from the end. Items are counted from zero; a list keeps the
element kind it was declared with whatever is put into it.
-/

namespace ModelFeed.Node

def items? : Node → Option (List Node)
  | .list _ items => some items
  | _ => none

def item? (index : Nat) (node : Node) : Option Node :=
  node.items?.bind fun items => items[index]?

/-- Appends an item; only lists take one. -/
def push? (list item : Node) : Option Node :=
  match list with
  | .list element items => some (.list element (items ++ [item]))
  | _ => none

/-- Replaces an item that is there. -/
def setItem? (list : Node) (index : Nat) (item : Node) : Option Node :=
  match list with
  | .list element items =>
    if index < items.length then some (.list element (items.set index item)) else none
  | _ => none

/-- Keeps at most the first items of a list. -/
def truncate (length : Nat) : Node → Node
  | .list element items => .list element (items.take length)
  | node => node

theorem items?_push? {list item grown : Node} (h : list.push? item = some grown) :
    ∃ items, list.items? = some items ∧ grown.items? = some (items ++ [item]) := by
  cases list with
  | list element items =>
    cases h
    exact ⟨items, rfl, rfl⟩
  | _ => simp [push?] at h

/-- The new item is the last one. -/
theorem item?_push? {list item grown : Node} (h : list.push? item = some grown) :
    grown.item? (list.items?.elim 0 List.length) = some item := by
  obtain ⟨items, before, after⟩ := items?_push? h
  simp [item?, before, after]

end ModelFeed.Node
