import ModelFeed.Node.Basic
import ModelFeed.Json.Printer
/-!
# Two renderings of a node

`Node.toJson` is the canonical document of a node, with the members of every object sorted.
`Node.text` is its text in node order: map entries as inserted, properties as declared, blobs as
they are stored.
-/

namespace ModelFeed.Node

mutual

def toJson : Node → Json
  | .null => .null
  | .bool b => .bool b
  | .number n => .number n
  | .string s => .string s
  | .structured schema values => Json.ofMembers (jsonFields schema.properties values)
  | .list _ items => .array (jsonItems items)
  | .map entries => Json.ofMembers (jsonEntries entries)
  | .blob json => json

def jsonItems : List Node → List Json
  | [] => []
  | item :: items => item.toJson :: jsonItems items

def jsonEntries : List (String × Node) → List (String × Json)
  | [] => []
  | (key, value) :: entries => (key, value.toJson) :: jsonEntries entries

def jsonFields : List Property → List Node → List (String × Json)
  | property :: properties, value :: values =>
    (property.name, value.toJson) :: jsonFields properties values
  | _, _ => []

end

mutual

def chars : Node → List Char
  | .null => Json.nullChars
  | .bool b => Json.boolChars b
  | .number n => n.chars
  | .string s => Json.stringChars s
  | .structured schema values => Json.objectChars (fieldsChars schema.properties values)
  | .list _ items => Json.arrayChars (itemsChars items)
  | .map entries => Json.objectChars (entriesChars entries)
  | .blob json => json.chars

def itemsChars : List Node → List (List Char)
  | [] => []
  | item :: items => item.chars :: itemsChars items

def entriesChars : List (String × Node) → List (List Char)
  | [] => []
  | (key, value) :: entries => Json.memberChars key value.chars :: entriesChars entries

def fieldsChars : List Property → List Node → List (List Char)
  | property :: properties, value :: values =>
    Json.memberChars property.name value.chars :: fieldsChars properties values
  | _, _ => []

end

def text (node : Node) : String :=
  String.ofList node.chars

end ModelFeed.Node
