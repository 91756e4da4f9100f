import ModelFeed.Json.Lexeme
import ModelFeed.Number.Numeral
import ModelFeed.Text.Quoted
/-!
# Text that does not fit

Reading a value of a given type from a text goes from left to right, and the first problem met
decides. The text is malformed if no JSON value stands there, and mismatched if the value that
stands there is not of the type. An array or object that does not fit is known by its bracket, so
nothing inside it is read.
-/

namespace ModelFeed.Json

/-- The value that stands where another was expected. -/
inductive Unexpected where
  | null
  | bool (value : Bool)
  | number (value : Number)
  | string (value : String)
  | sequence
  | map
deriving Repr, DecidableEq

def Unexpected.text : Unexpected → String
  | .null => "null"
  | .bool value => "boolean `" ++ toString value ++ "`"
  | .number (.integer i _) => "integer `" ++ String.ofList (Number.integerChars i) ++ "`"
  | .number (.float x) => "floating point `" ++ String.ofList x.chars ++ "`"
  | .string value => "string " ++ quoted value
  | .sequence => "sequence"
  | .map => "map"

/-- The type a value should have had. -/
inductive Expected where
  | string
  | count
  | record (name : String)
deriving Repr, DecidableEq

def Expected.text : Expected → String
  | .string => "a string"
  | .count => "u64"
  | .record name => "struct " ++ name

inductive Mismatch where
  | wrongType (found : Unexpected) (expected : Expected)
  /-- A value of the right type, but out of range. -/
  | wrongValue (found : Unexpected) (expected : Expected)
  | duplicateField (name : String)
  | noVariant (type : String)
deriving Repr, DecidableEq

def Mismatch.message : Mismatch → String
  | .wrongType found expected => "invalid type: " ++ found.text ++ ", expected " ++ expected.text
  | .wrongValue found expected => "invalid value: " ++ found.text ++ ", expected " ++ expected.text
  | .duplicateField name => "duplicate field `" ++ name ++ "`"
  | .noVariant type => "data did not match any variant of untagged enum " ++ type

inductive ReadError where
  | malformed
  | mismatched (reason : Mismatch)
deriving Repr, DecidableEq

/-- Reads a value from the front of a text and returns what follows. -/
abbrev Reader (α : Type) := List Char → Except ReadError (α × List Char)

def orMalformed {α : Type} : Option α → Except ReadError α
  | some a => .ok a
  | none => .error .malformed

/-- The value in front of a text, as far as it takes to tell what it is. -/
def unexpectedAt (cs : List Char) : Except ReadError Unexpected :=
  match cs with
  | 'n' :: 'u' :: 'l' :: 'l' :: _ => .ok .null
  | 't' :: 'r' :: 'u' :: 'e' :: _ => .ok (.bool true)
  | 'f' :: 'a' :: 'l' :: 's' :: 'e' :: _ => .ok (.bool false)
  | '"' :: rest => orMalformed ((readString? rest).map fun (s, _) => .string s)
  | '[' :: _ => .ok .sequence
  | '{' :: _ => .ok .map
  | cs => orMalformed do return .number (← (← Numeral.read? cs).1.value?)

def wrongTypeAt {α : Type} (expected : Expected) (cs : List Char) : Except ReadError α := do
  .error (.mismatched (.wrongType (← unexpectedAt cs) expected))

/-- A string value. -/
def readText : Reader String := fun cs =>
  match skipBlanks cs with
  | '"' :: rest => orMalformed (readString? rest)
  | cs => wrongTypeAt .string cs

/-- A count below `2 ^ 64`. -/
def readCount : Reader Nat := fun cs => do
  let cs := skipBlanks cs
  match Numeral.read? cs with
  | none => wrongTypeAt .count cs
  | some (numeral, rest) =>
    match ← orMalformed numeral.value? with
    | .integer i h =>
      if i < 0 then .error (.mismatched (.wrongValue (.number (.integer i h)) .count))
      else return (i.toNat, rest)
    | .float x => .error (.mismatched (.wrongType (.number (.float x)) .count))

end ModelFeed.Json
