import ModelFeed.Json.Lexeme
import ModelFeed.Number.Numeral
/-!
# Values nobody asked for

A member that is not known is passed over. Its value has to be well formed, but it may nest as deep
as it likes, its numbers may be of any size, and its strings may name single surrogates.
-/

namespace ModelFeed.Json

/-- What follows the closing quote of a string. -/
def skipString? : List Char → Option (List Char)
  | '"' :: cs => some cs
  | '\\' :: 'u' :: a :: b :: c :: d :: cs =>
    match unit? a b c d with
    | none => none
    | some _ => skipString? cs
  | '\\' :: c :: cs => if (escaped? c).isSome then skipString? cs else none
  | c :: cs => if c.toNat < 0x20 ∨ c = '\\' then none else skipString? cs
  | [] => none

mutual

/-- What follows a value. -/
def skipValueWith? : (fuel : Nat) → List Char → Option (List Char)
  | 0, _ => none
  | fuel + 1, cs =>
    match skipBlanks cs with
    | 'n' :: 'u' :: 'l' :: 'l' :: rest => some rest
    | 't' :: 'r' :: 'u' :: 'e' :: rest => some rest
    | 'f' :: 'a' :: 'l' :: 's' :: 'e' :: rest => some rest
    | '"' :: rest => skipString? rest
    | '[' :: rest =>
      match skipBlanks rest with
      | ']' :: rest => some rest
      | _ => skipItems? fuel rest
    | '{' :: rest =>
      match skipBlanks rest with
      | '}' :: rest => some rest
      | _ => skipMembers? fuel rest
    | cs => (Numeral.read? cs).map Prod.snd

/-- What follows the closing bracket of an array. -/
def skipItems? : (fuel : Nat) → List Char → Option (List Char)
  | 0, _ => none
  | fuel + 1, cs =>
    match skipValueWith? fuel cs with
    | none => none
    | some rest =>
      match skipBlanks rest with
      | ',' :: rest => skipItems? fuel rest
      | ']' :: rest => some rest
      | _ => none

/-- What follows the closing brace of an object. -/
def skipMembers? : (fuel : Nat) → List Char → Option (List Char)
  | 0, _ => none
  | fuel + 1, cs =>
    match skipBlanks cs with
    | '"' :: rest =>
      match skipString? rest with
      | none => none
      | some rest =>
        match skipBlanks rest with
        | ':' :: rest =>
          match skipValueWith? fuel rest with
          | none => none
          | some rest =>
            match skipBlanks rest with
            | ',' :: rest => skipMembers? fuel rest
            | '}' :: rest => some rest
            | _ => none
        | _ => none
    | _ => none

end

/-- What follows the value in front of a text. -/
def skipValue? (cs : List Char) : Option (List Char) :=
  skipValueWith? (2 * cs.length + 2) cs

end ModelFeed.Json
