/-!
# The smallest parts of JSON text

Blanks, the names of constants, and strings with their escapes. An escaped UTF-16 unit denotes a
character; a pair of surrogates denotes one character, and a surrogate without its partner none.
-/

namespace ModelFeed.Json

def isBlank (c : Char) : Bool :=
  c == ' ' || c == '\n' || c == '\t' || c == '\r'

def skipBlanks (cs : List Char) : List Char :=
  cs.dropWhile isBlank

def hexDigit? (c : Char) : Option Nat :=
  if '0' ≤ c ∧ c ≤ '9' then some (c.toNat - 48)
  else if 'a' ≤ c ∧ c ≤ 'f' then some (c.toNat - 87)
  else if 'A' ≤ c ∧ c ≤ 'F' then some (c.toNat - 55)
  else none

/-- The unit written by four hexadecimal digits. -/
def unit? (a b c d : Char) : Option Nat := do
  return (((← hexDigit? a) * 16 + (← hexDigit? b)) * 16 + (← hexDigit? c)) * 16 + (← hexDigit? d)

/-- The character named by a single letter after a backslash. -/
def escaped? : Char → Option Char
  | '"' => some '"'
  | '\\' => some '\\'
  | '/' => some '/'
  | 'b' => some '\x08'
  | 'f' => some '\x0c'
  | 'n' => some '\n'
  | 'r' => some '\r'
  | 't' => some '\t'
  | _ => none

def isHighSurrogate (unit : Nat) : Bool :=
  0xD800 ≤ unit && unit ≤ 0xDBFF

def isLowSurrogate (unit : Nat) : Bool :=
  0xDC00 ≤ unit && unit ≤ 0xDFFF

def ofSurrogates (high low : Nat) : Char :=
  Char.ofNat (0x10000 + (high - 0xD800) * 0x400 + (low - 0xDC00))

/-- What a text holds up to its closing quote, after `done` in reverse, and what follows. -/
def readStringAfter? (done : List Char) : List Char → Option (List Char × List Char)
  | '"' :: cs => some (done.reverse, cs)
  | '\\' :: 'u' :: a :: b :: c :: d :: cs =>
    match unit? a b c d with
    | none => none
    | some unit =>
      if isLowSurrogate unit then none
      else if isHighSurrogate unit then
        match cs with
        | '\\' :: 'u' :: e :: f :: g :: h :: cs =>
          match unit? e f g h with
          | none => none
          | some low =>
            if isLowSurrogate low then readStringAfter? (ofSurrogates unit low :: done) cs
            else none
        | _ => none
      else readStringAfter? (Char.ofNat unit :: done) cs
  | '\\' :: c :: cs =>
    match escaped? c with
    | none => none
    | some e => readStringAfter? (e :: done) cs
  | c :: cs => if c.toNat < 0x20 ∨ c = '\\' then none else readStringAfter? (c :: done) cs
  | [] => none

/-- The string that a text holds up to its closing quote, and what follows. -/
def readString? (cs : List Char) : Option (String × List Char) :=
  (readStringAfter? [] cs).map fun (content, rest) => (String.ofList content, rest)

end ModelFeed.Json
