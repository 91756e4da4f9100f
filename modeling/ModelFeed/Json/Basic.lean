import ModelFeed.Number.Basic
/-!
# JSON documents

A document keeps its members in the order written, with repetitions. Its canonical form has the
members of every object once, sorted by key; of a repeated key the last value counts. Payloads and
stored fragments are canonical, so their texts can be compared.
-/

namespace ModelFeed

inductive Json where
  | null
  | bool (value : Bool)
  | number (value : Number)
  | string (value : String)
  | array (items : List Json)
  | object (members : List (String × Json))
deriving Inhabited, Repr

namespace Json

/-- Puts a member at its place among sorted members; a key that is present takes the new value. -/
def insertMember (key : String) (value : Json) : List (String × Json) → List (String × Json)
  | [] => [(key, value)]
  | (k, v) :: rest =>
    if key = k then (k, value) :: rest
    else if key < k then (key, value) :: (k, v) :: rest
    else (k, v) :: insertMember key value rest

/-- The object with the given members, sorted; of a repeated key the last value counts. -/
def ofMembers (members : List (String × Json)) : Json :=
  .object (members.foldl (fun sorted member => insertMember member.1 member.2 sorted) [])

mutual

/-- The document with the members of every object sorted by key. -/
def canonical : Json → Json
  | .array items => .array (canonicalItems items)
  | .object members => ofMembers (canonicalMembers members)
  | scalar => scalar

def canonicalItems : List Json → List Json
  | [] => []
  | item :: items => item.canonical :: canonicalItems items

def canonicalMembers : List (String × Json) → List (String × Json)
  | [] => []
  | (key, value) :: members => (key, value.canonical) :: canonicalMembers members

end

mutual

/-- Equality of canonical documents, with numbers equal as `Number.same` says. -/
def same : Json → Json → Bool
  | .null, .null => true
  | .bool a, .bool b => a == b
  | .number a, .number b => a.same b
  | .string a, .string b => a == b
  | .array a, .array b => sameItems a b
  | .object a, .object b => sameMembers a b
  | _, _ => false

def sameItems : List Json → List Json → Bool
  | [], [] => true
  | a :: as, b :: bs => a.same b && sameItems as bs
  | _, _ => false

def sameMembers : List (String × Json) → List (String × Json) → Bool
  | [], [] => true
  | (k, a) :: as, (l, b) :: bs => k == l && a.same b && sameMembers as bs
  | _, _ => false

end

def isContainer : Json → Bool
  | .array _ | .object _ => true
  | _ => false

def isNull : Json → Bool
  | .null => true
  | _ => false

end Json

end ModelFeed
