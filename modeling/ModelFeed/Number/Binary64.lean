/-!
# Finite binary64 numbers

A finite double is a sign, a significand below `2 ^ 53` and an exponent; its magnitude is
`significand * 2 ^ exponent / 2 ^ 1074`. The normal form of a magnitude is unique, so equality of
the fields is equality of doubles, with `0.0` and `-0.0` apart. Arithmetic rounds the exact
quotient once, to the nearest double and on a tie to the even significand; a result beyond the
finite range is `none`.
-/

namespace ModelFeed

/-- A significand is below `2 ^ 53`, and below `2 ^ 52` only with the smallest exponent. -/
def NormalForm (significand exponent : Nat) : Prop :=
  significand < 0x20000000000000 ∧ exponent ≤ 2045 ∧
    (exponent = 0 ∨ 0x10000000000000 ≤ significand)

instance (significand exponent : Nat) : Decidable (NormalForm significand exponent) :=
  inferInstanceAs (Decidable (_ ∧ _ ∧ _))

structure Binary64 where
  negative : Bool
  significand : Nat
  exponent : Nat
  normal : NormalForm significand exponent
deriving DecidableEq, Repr

namespace Binary64

def zero (negative : Bool) : Binary64 :=
  ⟨negative, 0, 0, by decide⟩

def isZero (x : Binary64) : Bool :=
  x.significand == 0

/-- Numeric equality: the two zeros are equal. -/
def sameValue (x y : Binary64) : Bool :=
  x == y || x.isZero && y.isZero

/-- The magnitude in units of `2 ^ -1074`. -/
def units (x : Binary64) : Nat :=
  x.significand * Nat.pow 2 x.exponent

/-- A quotient rounded to the nearest integer, a tie to the even one. -/
def roundQuotient (num den : Nat) : Nat :=
  let below := num / den
  let twice := 2 * (num % den)
  if twice < den ∨ twice = den ∧ below % 2 = 0 then below else below + 1

/-- The double nearest to `num / den` with the given sign. -/
def ofQuotient? (negative : Bool) (num den : Nat) : Option Binary64 :=
  let scaled := num * Nat.pow 2 1074
  let exponent := Nat.log2 (scaled / den) - 52
  let rounded := roundQuotient scaled (den * Nat.pow 2 exponent)
  -- Rounding up may carry into another bit.
  let (significand, exponent) :=
    if rounded = 0x20000000000000 then (0x10000000000000, exponent + 1) else (rounded, exponent)
  if h : NormalForm significand exponent then some ⟨negative, significand, exponent, h⟩ else none

def ofInteger? (i : Int) : Option Binary64 :=
  ofQuotient? (i < 0) i.natAbs 1

def mul? (x y : Binary64) : Option Binary64 :=
  ofQuotient? (x.negative ^^ y.negative) (x.units * y.units) (Nat.pow 2 2148)

/-- The quotient; the divisor is not zero. -/
def div? (x y : Binary64) : Option Binary64 :=
  ofQuotient? (x.negative ^^ y.negative) x.units y.units

def withSign (negative : Bool) (x : Binary64) : Binary64 :=
  { x with negative }

end Binary64

end ModelFeed
