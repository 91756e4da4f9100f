import ModelFeed.Filter.Token
import ModelFeed.Text.DecimalDigit
import ModelFeed.Text.Pieces
/-!
# Reading filters

The segments of a filter stand between separators: dots, and slashes too unless the filter is part
of an expression. A segment `name[selector]`, with a selector made of digits, commas and stars,
gives a name and an index; any other segment is a name as it stands. Digits of every script make a
selector, but only the ASCII ones denote an index, so a foreign digit is an error and not a name.
-/

namespace ModelFeed

/-- Where a filter stands. -/
inductive FilterPlace where
  | path
  | expression
deriving DecidableEq, Repr

inductive FilterError where
  | invalidIndex (segment selector : String)
  | indexList (segment : String)
deriving DecidableEq, Repr

def FilterError.message : FilterError → String
  | .invalidIndex segment selector =>
    "Invalid index selector '" ++ selector ++ "' in filter segment '" ++ segment ++ "'"
  | .indexList segment =>
    "Index lists are not supported (filter segment '" ++ segment ++ "')"

namespace Token

def isSeparator (place : FilterPlace) (c : Char) : Bool :=
  c == '.' || place == .path && c == '/'

def isSelectorChar (c : Char) : Bool :=
  isDecimalDigit c || c == ',' || c == '*'

/-- The name and the selector of a segment `name[selector]`; the name has no line feed. -/
def splitSelector? (segment : List Char) : Option (List Char × List Char) :=
  match segment.reverse with
  | ']' :: front =>
    match front.dropWhile isSelectorChar with
    | '[' :: stem =>
      let selector := (front.takeWhile isSelectorChar).reverse
      if selector.isEmpty || stem.contains '\n' then none else some (stem.reverse, selector)
    | _ => none
  | _ => none

/-- The index a selector denotes. -/
def ofSelector (segment selector : List Char) : Except FilterError Int :=
  if selector = ['*'] then .ok everyIndex
  -- A comma is reported first, whatever else is wrong with the selector.
  else if selector.contains ',' then .error (.indexList (String.ofList segment))
  else if selector.all Char.isDigit && Nat.ofDigitChars 10 selector 0 ≤ maxIndex then
    .ok (Nat.ofDigitChars 10 selector 0)
  else .error (.invalidIndex (String.ofList segment) (String.ofList selector))

def ofSegment (segment : List Char) : Except FilterError (List Token) :=
  match splitSelector? segment with
  | none => .ok [.name (String.ofList segment)]
  | some (stem, selector) => do
    let value ← ofSelector segment selector
    return [.name (String.ofList stem), .index value]

/-- The tokens of one segment after the other; the first bad segment decides the error. -/
def ofSegments : List (List Char) → Except FilterError (List Token)
  | [] => .ok []
  | segment :: segments => do
    let first ← ofSegment segment
    let rest ← ofSegments segments
    return first ++ rest

/-- The tokens of a filter. The empty text has none. -/
def parse (place : FilterPlace) (text : String) : Except FilterError (List Token) :=
  if text.isEmpty then .ok [] else ofSegments (pieces (isSeparator place) text.toList)

end Token

/-- A filter with the text it was read from. -/
structure Filter where
  raw : String
  tokens : List Token
deriving DecidableEq, Repr

namespace Filter

def parse (place : FilterPlace) (text : String) : Except FilterError Filter :=
  return ⟨text, ← Token.parse place text⟩

def isEmpty (filter : Filter) : Bool :=
  filter.tokens.isEmpty

end Filter

end ModelFeed
