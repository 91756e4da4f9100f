import ModelFeed.Number.Basic
/-!
# Numerals

`Numeral.read?` takes the longest numeral in front of a text: an optional minus, an integer part
without leading zeros, an optional fraction and an optional exponent. `Numeral.value?` is the
number it denotes. An integer part alone denotes an integer if it fits; everything else denotes a
double, computed from the leading digits that fit 64 bits and a power of ten, each rounded once.
A numeral beyond the finite doubles denotes no number.
-/

namespace ModelFeed

structure Numeral where
  negative : Bool
  whole : List Char
  fraction : List Char := []
  /-- The sign and the digits of the exponent. -/
  exponent : Option (Bool × List Char) := none
deriving DecidableEq, Repr

/-- The digits a text starts with, and what follows them. -/
def spanDigits (cs : List Char) : List Char × List Char :=
  (cs.takeWhile Char.isDigit, cs.dropWhile Char.isDigit)

namespace Numeral

def readWhole? (cs : List Char) : Option (List Char × List Char) :=
  match spanDigits cs with
  | ([], _) => none
  | ('0' :: _ :: _, _) => none
  | found => some found

def readFraction? : List Char → Option (List Char × List Char)
  | '.' :: cs =>
    match spanDigits cs with
    | ([], _) => none
    | found => some found
  | cs => some ([], cs)

def readSign : List Char → Bool × List Char
  | '-' :: cs => (true, cs)
  | '+' :: cs => (false, cs)
  | cs => (false, cs)

def readExponent? : List Char → Option (Option (Bool × List Char) × List Char)
  | c :: cs =>
    if c = 'e' ∨ c = 'E' then
      let (negative, cs) := readSign cs
      match spanDigits cs with
      | ([], _) => none
      | (digits, rest) => some (some (negative, digits), rest)
    else some (none, c :: cs)
  | [] => some (none, [])

/-- The numeral that follows a minus sign, if `negative`, or starts the text. -/
def readUnsigned? (negative : Bool) (cs : List Char) : Option (Numeral × List Char) := do
  let (whole, cs) ← readWhole? cs
  let (fraction, cs) ← readFraction? cs
  let (exponent, cs) ← readExponent? cs
  return (⟨negative, whole, fraction, exponent⟩, cs)

def read? : List Char → Option (Numeral × List Char)
  | '-' :: cs => readUnsigned? true cs
  | cs => readUnsigned? false cs

/-- Appends digits to a count while it stays below `2 ^ 64`; the second part is what is left. -/
def accumulate (count : Nat) : List Char → Nat × List Char
  | [] => (count, [])
  | c :: cs =>
    let next := 10 * count + (c.toNat - 48)
    if next < 0x10000000000000000 then accumulate next cs else (count, c :: cs)

def powerOfTen? (n : Nat) : Option Binary64 :=
  Binary64.ofQuotient? false (Nat.pow 10 n) 1

/-- `x * 10 ^ power`, by one multiplication or division with a rounded power of ten. Powers below
`10 ^ -308` take a division by `10 ^ 308` first; powers above `10 ^ 308` are out of range. -/
def scale? (x : Binary64) (power : Int) : Option Binary64 :=
  if power > 308 then if x.isZero then some x else none
  else if power ≥ 0 then (powerOfTen? power.toNat).bind x.mul?
  else if power ≥ -308 then (powerOfTen? (-power).toNat).bind x.div?
  else if power ≥ -616 then do
    let y ← x.div? (← powerOfTen? 308)
    y.div? (← powerOfTen? (-power - 308).toNat)
  else some (.zero x.negative)

def naturalOf (digits : List Char) : Nat :=
  Nat.ofDigitChars 10 digits 0

def exponentValue (n : Numeral) : Int :=
  match n.exponent with
  | none => 0
  | some (negative, digits) => if negative then -naturalOf digits else naturalOf digits

/-- The double a numeral denotes. Digits of the integer part that do not fit only add to the
power; digits of the fraction that do not fit are dropped. -/
def float? (n : Numeral) : Option Binary64 := do
  let (count, dropped) := accumulate 0 n.whole
  -- A smaller digit of the fraction may still fit where one of the integer part did not.
  let (count, unread) := accumulate count n.fraction
  let power : Int := dropped.length - (n.fraction.length - unread.length : Nat) + n.exponentValue
  let x ← Binary64.ofQuotient? n.negative count 1
  scale? x power

def isWhole (n : Numeral) : Bool :=
  n.fraction.isEmpty && n.exponent.isNone

/-- The integer a whole numeral denotes. -/
def integer (n : Numeral) : Int :=
  if n.negative then -naturalOf n.whole else naturalOf n.whole

/-- The number a numeral denotes; `-0` is the double. -/
def value? (n : Numeral) : Option Number :=
  if h : FitsInteger n.integer then
    if n.isWhole && !(n.negative && n.integer == 0) then some (.integer n.integer h)
    else n.float?.map .float
  else n.float?.map .float

end Numeral

end ModelFeed
