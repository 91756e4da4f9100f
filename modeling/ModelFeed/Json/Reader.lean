import ModelFeed.Json.Basic
import ModelFeed.Json.Lexeme
import ModelFeed.Number.Numeral
/-!
# Reading JSON text

`Json.readFirst?` reads the first value of a text and returns what follows it; `Json.ofText?` reads
a text that is one value and blanks. A value may nest arrays and objects 127 deep. Each step of the
reader takes a character or opens a list, so twice the length of the text is fuel enough.
-/

namespace ModelFeed.Json

def maxDepth : Nat := 127

mutual

/-- A value, with at most `depth` more levels of nesting. -/
def readValue? : (fuel depth : Nat) → List Char → Option (Json × List Char)
  | 0, _, _ => none
  | fuel + 1, depth, cs =>
    match skipBlanks cs with
    | 'n' :: 'u' :: 'l' :: 'l' :: rest => some (.null, rest)
    | 't' :: 'r' :: 'u' :: 'e' :: rest => some (.bool true, rest)
    | 'f' :: 'a' :: 'l' :: 's' :: 'e' :: rest => some (.bool false, rest)
    | '"' :: rest => (readString? rest).map fun (s, rest) => (.string s, rest)
    | '[' :: rest =>
      match depth with
      | 0 => none
      | depth + 1 =>
        match skipBlanks rest with
        | ']' :: rest => some (.array [], rest)
        | _ => (readItems? fuel depth [] rest).map fun (items, rest) => (.array items, rest)
    | '{' :: rest =>
      match depth with
      | 0 => none
      | depth + 1 =>
        match skipBlanks rest with
        | '}' :: rest => some (.object [], rest)
        | _ => (readMembers? fuel depth [] rest).map fun (members, rest) => (.object members, rest)
    | cs => do
      let (numeral, rest) ← Numeral.read? cs
      return (.number (← numeral.value?), rest)

/-- The items up to the closing bracket, after those already read, latest first. -/
def readItems? : (fuel depth : Nat) → (done : List Json) → List Char →
    Option (List Json × List Char)
  | 0, _, _, _ => none
  | fuel + 1, depth, done, cs =>
    match readValue? fuel depth cs with
    | none => none
    | some (item, rest) =>
      match skipBlanks rest with
      | ',' :: rest => readItems? fuel depth (item :: done) rest
      | ']' :: rest => some ((item :: done).reverse, rest)
      | _ => none

/-- The members up to the closing brace, after those already read, latest first. -/
def readMembers? : (fuel depth : Nat) → (done : List (String × Json)) → List Char →
    Option (List (String × Json) × List Char)
  | 0, _, _, _ => none
  | fuel + 1, depth, done, cs =>
    match skipBlanks cs with
    | '"' :: rest =>
      match readString? rest with
      | none => none
      | some (key, rest) =>
        match skipBlanks rest with
        | ':' :: rest =>
          match readValue? fuel depth rest with
          | none => none
          | some (value, rest) =>
            match skipBlanks rest with
            | ',' :: rest => readMembers? fuel depth ((key, value) :: done) rest
            | '}' :: rest => some (((key, value) :: done).reverse, rest)
            | _ => none
        | _ => none
    | _ => none

end

/-- The first value of a text, and what follows it. -/
def readFirst? (cs : List Char) : Option (Json × List Char) :=
  readValue? (2 * cs.length + 2) maxDepth cs

/-- The document a text holds. -/
def ofText? (text : String) : Option Json :=
  match readFirst? text.toList with
  | some (document, rest) => if (skipBlanks rest).isEmpty then some document else none
  | none => none

end ModelFeed.Json
