import ModelFeed.Number.Shortest
/-!
# Numbers

A number is an integer that fits 64 bits, signed or unsigned, or a finite double. The two classes
never meet: `1` and `1.0` are different numbers with different texts.
-/

namespace ModelFeed

/-- The integers a number can hold exactly: from `-2 ^ 63` up to `2 ^ 64 - 1`. -/
def FitsInteger (i : Int) : Prop :=
  -0x8000000000000000 ≤ i ∧ i < 0x10000000000000000

instance (i : Int) : Decidable (FitsInteger i) :=
  inferInstanceAs (Decidable (_ ∧ _))

inductive Number where
  | integer (value : Int) (fits : FitsInteger value)
  | float (value : Binary64)
deriving DecidableEq, Repr

namespace Number

/-- Equality within a class; the two zeros among the doubles are equal. -/
def same : Number → Number → Bool
  | .integer a _, .integer b _ => a == b
  | .float x, .float y => x.sameValue y
  | _, _ => false

/-- An integer as a number, as a double when it does not fit. -/
def ofInteger? (i : Int) : Option Number :=
  if h : FitsInteger i then some (.integer i h) else (Binary64.ofInteger? i).map .float

def natural? : Number → Option Nat
  | .integer i _ => i.toNat?
  | .float _ => none

def integerChars (i : Int) : List Char :=
  if i < 0 then '-' :: Nat.toDigits 10 i.natAbs else Nat.toDigits 10 i.natAbs

def chars : Number → List Char
  | .integer i _ => integerChars i
  | .float x => x.chars

end Number

end ModelFeed
