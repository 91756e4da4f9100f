import ModelFeed.Filter.Token
import ModelFeed.Node.Rendering
import ModelFeed.Node.Structured
/-!
# Exact lookup

A path without wildcards leads to at most one value. A name means the key spelled that way, or else
the first key of the same name. A restricted lookup only finds what it reaches through a restricted
property; below one, everything counts as restricted. A list cannot be entered before that.
-/

namespace ModelFeed

/-- A value found in the model, or inside one of its JSON fragments. -/
inductive Found where
  | node (value : Node)
  | json (value : Json)

namespace Found

def toJson : Found → Json
  | .node value => value.toJson
  | .json value => value

def toNode : Found → Node
  | .node value => value
  | .json value => .ofJson value

end Found

/-- Whether a value may be shown, given whether a restricted property was crossed. -/
def isVisible (restrictedOnly crossed : Bool) : Bool :=
  !restrictedOnly || crossed

/-- The item at an index. -/
def itemAt? {α : Type} (items : List α) (index : Int) : Option α :=
  index.toNat?.bind fun i => items[i]?

@[simp] theorem itemAt?_natCast {α : Type} (items : List α) (i : Nat) :
    itemAt? items i = items[i]? := rfl

/-- Follows tokens from a value inside a JSON fragment. -/
def Json.follow? (restrictedOnly : Bool) : List Token → Json → (crossed : Bool) → Option Found
  | [], value, crossed => if isVisible restrictedOnly crossed then some (.json value) else none
  | .name text :: rest, .object members, crossed =>
    (Entries.lookup? text members).bind fun member => follow? restrictedOnly rest member crossed
  | .index index :: rest, .array items, crossed =>
    if isVisible restrictedOnly crossed then
      (itemAt? items index).bind fun item => follow? restrictedOnly rest item crossed
    else none
  | _, _, _ => none

/-- Follows tokens from a node. -/
def Node.follow? (restrictedOnly : Bool) : List Token → Node → (crossed : Bool) → Option Found
  | [], node, crossed => if isVisible restrictedOnly crossed then some (.node node) else none
  | .name text :: rest, .structured schema values, crossed =>
    (findField? text schema.properties values).bind fun (property, value) =>
      if rest.isEmpty || property.kind.isDescendable then
        follow? restrictedOnly rest value (crossed || restrictedOnly && property.restricted)
      else none
  | .name text :: rest, .map entries, crossed =>
    (Entries.lookup? text entries).bind fun value => follow? restrictedOnly rest value crossed
  | .index index :: rest, .list _ items, crossed =>
    if isVisible restrictedOnly crossed then
      (itemAt? items index).bind fun item => follow? restrictedOnly rest item crossed
    else none
  | tokens, .blob json, crossed => json.follow? restrictedOnly tokens crossed
  | _, _, _ => none

/-- The value a path of tokens leads to. The empty path leads nowhere. -/
def Node.resolve? (tokens : List Token) (restrictedOnly : Bool) (node : Node) : Option Found :=
  if tokens.isEmpty then none else node.follow? restrictedOnly tokens false

theorem Node.resolve?_of_ne_nil {tokens : List Token} (nonempty : tokens ≠ [])
    (restrictedOnly : Bool) (node : Node) :
    node.resolve? tokens restrictedOnly = node.follow? restrictedOnly tokens false := by
  rw [resolve?, if_neg (by simpa using nonempty)]

end ModelFeed
