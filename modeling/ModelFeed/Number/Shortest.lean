import ModelFeed.Number.Binary64
/-!
# Shortest decimals

The text of a double has the fewest digits that read back to it, and of those the digits nearest
to it. On the grid of decimals with a given number of digits only the two neighbours of the value
can be nearest, so the search tests these two for one digit, two digits and so on; seventeen are
always enough.
-/

namespace ModelFeed

/-- The decimal `0.d₁d₂d₃… * 10 ^ point`; the last digit is not zero. -/
structure Decimal where
  digits : List Char
  point : Int
deriving DecidableEq, Repr

/-- The decimal `count * 10 ^ exponent` for a positive `count`. -/
def Decimal.ofCount (count : Nat) (exponent : Int) : Decimal :=
  let digits := Nat.toDigits 10 count
  ⟨(digits.reverse.dropWhile (· == '0')).reverse, digits.length + exponent⟩

namespace Binary64

/-- The reals that round to a positive double, in units of `2 ^ -1076`. The ends belong to them
when the significand is even. -/
structure Rounding where
  low : Nat
  value : Nat
  high : Nat
  closed : Bool

/-- The gap below a power of two is half the gap above it. -/
def rounding (x : Binary64) : Rounding :=
  let unit := Nat.pow 2 x.exponent
  let value := 4 * x.significand * unit
  let below := if x.significand = 0x10000000000000 ∧ 0 < x.exponent then unit else 2 * unit
  ⟨value - below, value, value + 2 * unit, x.significand % 2 == 0⟩

/-- The weight of the leading digit: the `p` with `10 ^ p ≤ num / den < 10 ^ (p + 1)`. -/
def leadingPower (num den : Nat) : Int :=
  if den ≤ num then (Nat.toDigits 10 (num / den)).length - 1
  else match (List.range 400).find? fun k => den ≤ num * Nat.pow 10 k with
    | some k => -k
    | none => -400

/-- The nearest of the two neighbours on the grid `10 ^ exponent` that rounds to the value, of two
equally near ones the even one. -/
def Rounding.neighbour? (r : Rounding) (exponent : Int) : Option Nat :=
  let up := Nat.pow 10 exponent.toNat * Nat.pow 2 1076
  let down := Nat.pow 10 (-exponent).toNat
  -- Both sides are multiplied out, so the bounds are compared exactly.
  let inside (count : Nat) : Bool :=
    if r.closed then r.low * down ≤ count * up && count * up ≤ r.high * down
    else r.low * down < count * up && count * up < r.high * down
  let below := r.value * down / up
  match inside below, inside (below + 1) with
  | true, true => some (roundQuotient (r.value * down) up)
  | true, false => some below
  | false, true => some (below + 1)
  | false, false => none

/-- The fewest digits that read back to a double other than zero. -/
def shortest (x : Binary64) : Decimal :=
  let r := x.rounding
  let power := leadingPower r.value (Nat.pow 2 1076)
  let found := (List.range 17).findSome? fun (more : Nat) =>
    (r.neighbour? (power - more)).map (Decimal.ofCount · (power - more))
  found.getD ⟨[], 0⟩

/-- Decimal exponents from -5 to 15 are written positionally with at least one place, others with
an exponent that has no plus sign. -/
def Decimal.layout (d : Decimal) : List Char :=
  let count : Int := d.digits.length
  if 0 < d.point ∧ d.point ≤ 16 then
    if count ≤ d.point then d.digits ++ List.replicate (d.point - count).toNat '0' ++ ['.', '0']
    else d.digits.take d.point.toNat ++ '.' :: d.digits.drop d.point.toNat
  else if -5 < d.point ∧ d.point ≤ 0 then
    '0' :: '.' :: List.replicate (-d.point).toNat '0' ++ d.digits
  else
    let tail := d.digits.drop 1
    d.digits.take 1 ++ (if tail.isEmpty then [] else '.' :: tail) ++
      'e' :: (toString (d.point - 1)).toList

def chars (x : Binary64) : List Char :=
  let magnitude := if x.isZero then ['0', '.', '0'] else Decimal.layout x.shortest
  if x.negative then '-' :: magnitude else magnitude

end Binary64

end ModelFeed
