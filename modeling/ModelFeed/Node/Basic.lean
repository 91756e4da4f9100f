import ModelFeed.Entries
import ModelFeed.Json.Basic
import ModelFeed.Schema
/-!
# Model nodes

The machine model is a tree. Structured nodes have the properties of their schema, lists have items
of a declared kind, maps have entries under free names, and blobs are JSON fragments handed over by
other parts of the machine. Everything else is a scalar, null included.
-/

namespace ModelFeed

inductive Node where
  | null
  | bool (value : Bool)
  | number (value : Number)
  | string (value : String)
  /-- One value for each property of the schema, in order. -/
  | structured (schema : Schema) (values : List Node)
  | list (element : ElementKind) (items : List Node)
  | map (entries : List (String × Node))
  | blob (json : Json)
deriving Inhabited

namespace Node

def emptyMap : Node :=
  .map []

/-- Stands in a list for an item that a filter does not select. -/
def placeholder : ElementKind → Node
  | .list => .list .scalar []
  | _ => emptyMap

def isNull : Node → Bool
  | .null => true
  | _ => false

def isScalar : Node → Bool
  | .null | .bool _ | .number _ | .string _ => true
  | _ => false

/-- Whether a path may lead below this node. -/
def isContainer : Node → Bool
  | .structured .. | .list .. | .map _ => true
  | .blob json => json.isContainer
  | _ => false

/-- A map or list without entries. -/
def isEmptyContainer : Node → Bool
  | .map entries => entries.isEmpty
  | .list _ items => items.isEmpty
  | _ => false

/-- The value of a JSON document as a node; arrays and objects become blobs. -/
def ofJson : Json → Node
  | .null => .null
  | .bool b => .bool b
  | .number n => .number n
  | .string s => .string s
  | container => .blob container

/-- A double as a node; a value beyond the finite doubles is null. -/
def ofDouble : Option Binary64 → Node
  | some x => .number (.float x)
  | none => .null

mutual

/-- Equality of trees. The order of map entries does not count, that of list items does, and
structured nodes are equal only under one schema. -/
def same : Node → Node → Bool
  | .null, .null => true
  | .bool a, .bool b => a == b
  | .number a, .number b => a.same b
  | .string a, .string b => a == b
  | .structured s as, .structured t bs => s.same t && sameItems as bs
  | .list e as, .list f bs => e.same f && sameItems as bs
  | .map as, .map bs => as.length == bs.length && sameEntries as bs
  | .blob a, .blob b => a.same b
  | _, _ => false

def sameItems : List Node → List Node → Bool
  | [], [] => true
  | a :: as, b :: bs => a.same b && sameItems as bs
  | _, _ => false

/-- Every entry of the first list has an equal one in the second. -/
def sameEntries : List (String × Node) → Entries Node → Bool
  | [], _ => true
  | (key, a) :: as, bs =>
    (match Entries.get? key bs with
    | some b => a.same b
    | none => false) && sameEntries as bs

end

end Node

end ModelFeed
