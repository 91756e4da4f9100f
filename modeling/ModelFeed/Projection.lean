import ModelFeed.Node.Basic
import ModelFeed.Filter.Token
/-!
# Projection

The projection of a node onto a filter is the part of the node that the filter selects: objects
with the selected members only, and lists of the same length with placeholders in the slots that
are not selected, so that an index means the same in both. What is selected whole is copied as it
stands. A filter that selects nothing has no projection.
-/

namespace ModelFeed

/-- The items an index token selects: every one (`none`) or a single one in range. -/
def selectedIndex? (index : Int) (length : Nat) : Option (Option Nat) :=
  if index = Token.everyIndex then some none
  else if 0 ≤ index ∧ index < length then some (some index.toNat)
  else none

/-- Whether the tokens after a name take the value of that name whole. -/
def takesWhole : List Token → Bool
  | [] => true
  | [token] => token.isRecursive
  | _ => false

theorem takesWhole_index (index : Int) (rest : List Token) :
    takesWhole (.index index :: rest) = false := by
  cases rest <;> rfl

/-- A map of the selected members, unless there are none. -/
def selectedMembers? : List (String × Node) → Option Node
  | [] => none
  | members => some (.map (Entries.ofList members))

namespace Json

/-- Stands in an array for an item that a filter does not select. -/
def placeholder : Json → Node
  | .array _ => .placeholder .list
  | _ => .emptyMap

/-- The projection of a JSON fragment. What is selected whole stays a fragment. -/
def project? : List Token → Json → Option Node
  | [], _ => none
  | .name text :: rest, .object members =>
    selectedMembers? <| members.filterMap fun (key, member) =>
      if !(Token.name text).selectsName key then none
      else if takesWhole rest then some (key, .blob member)
      else (project? rest member).map (key, ·)
  | .index index :: rest, .array items =>
    match selectedIndex? index items.length with
    | none => none
    | some selected =>
      -- A fragment does not say what its items are, so they are looked at.
      if items.all (fun item => !item.isContainer) || selected.isNone && rest.isEmpty then
        some (.blob (.array items))
      else
        some <| .list .scalar <| items.mapIdx fun i item =>
          if item.isNull then .null
          else if selected.any (· != i) then item.placeholder
          else if rest.isEmpty then .blob item
          else (project? rest item).getD item.placeholder
  | _, _ => none

end Json

namespace Node

/-- The projection of a node onto a filter. -/
def project? : List Token → Node → Option Node
  | [], _ => none
  | .name text :: rest, .structured schema values =>
    selectedMembers? <| (schema.properties.zip values).filterMap fun (property, value) =>
      if !(Token.name text).selectsName property.name then none
      else if takesWhole rest then some (property.name, value)
      else if property.kind.isDescendable then (project? rest value).map (property.name, ·)
      else none
  | .name text :: rest, .map entries =>
    selectedMembers? <| entries.filterMap fun (key, value) =>
      if !(Token.name text).selectsName key then none
      else if takesWhole rest then some (key, value)
      else (project? rest value).map (key, ·)
  | .index index :: rest, .list element items =>
    match selectedIndex? index items.length with
    | none => none
    | some selected =>
      -- A list of scalars is copied whatever item is selected.
      if !element.isContainer || selected.isNone && rest.isEmpty then some (.list element items)
      else
        some <| .list element <| items.mapIdx fun i item =>
          if item.isNull then .null
          else if selected.any (· != i) then placeholder element
          else if rest.isEmpty then item
          else (project? rest item).getD (placeholder element)
  | tokens, .blob json => json.project? tokens
  | _, _ => none

/-- The projection, and an empty map if nothing is selected. -/
def filtered (tokens : List Token) (node : Node) : Node :=
  (node.project? tokens).getD emptyMap

end Node

end ModelFeed
