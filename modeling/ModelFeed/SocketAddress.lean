import ModelFeed.Text.Pieces
/-!
# Socket addresses

An address of the fourth version is four octets and a port, `1.2.3.4:5`. One of the sixth version
is eight groups and a port, `[2001:db8::1]:443`, with an optional scope after a percent sign. It is
written with the first longest run of at least two zero groups as `::`, or, when it maps an address
of the fourth version, as `::ffff:1.2.3.4`.
-/

namespace ModelFeed

inductive SocketAddress where
  /-- Four octets and a port. -/
  | v4 (octets : List Nat) (port : Nat)
  /-- Eight groups of sixteen bits, a scope and a port. -/
  | v6 (groups : List Nat) (scope port : Nat)
deriving DecidableEq, Repr

namespace SocketAddress

/-- The value of a digit in a base up to sixteen. -/
def digit? (base : Nat) (c : Char) : Option Nat :=
  let value? :=
    if c.isDigit then some (c.toNat - 48)
    else if 'a' ≤ c ∧ c ≤ 'f' then some (c.toNat - 87)
    else if 'A' ≤ c ∧ c ≤ 'F' then some (c.toNat - 55)
    else none
  value?.filter (· < base)

def isDigit (base : Nat) (c : Char) : Bool :=
  (digit? base c).isSome

def valueOf (base : Nat) (digits : List Char) : Nat :=
  digits.foldl (fun value c => base * value + (digit? base c).getD 0) 0

/-- A number below a limit in front of a text, with all the digits that stand there. -/
def number? (base limit : Nat) (cs : List Char) : Option (Nat × List Char) :=
  let digits := cs.takeWhile (isDigit base)
  if digits.isEmpty then none
  else if valueOf base digits < limit then
    some (valueOf base digits, cs.dropWhile (isDigit base))
  else none

def expect? (c : Char) : List Char → Option (List Char)
  | d :: cs => if c = d then some cs else none
  | [] => none

/-- An octet: at most three digits, no leading zero. -/
def octet? (cs : List Char) : Option (Nat × List Char) :=
  let digits := cs.takeWhile (isDigit 10)
  if 3 < digits.length ∨ 1 < digits.length ∧ digits.head? = some '0' then none
  else number? 10 256 cs

/-- Four octets with dots between them. -/
def octets? (cs : List Char) : Option (List Nat × List Char) := do
  let (a, cs) ← octet? cs
  let (b, cs) ← octet? (← expect? '.' cs)
  let (c, cs) ← octet? (← expect? '.' cs)
  let (d, cs) ← octet? (← expect? '.' cs)
  return ([a, b, c, d], cs)

/-- A group: at most four hexadecimal digits. -/
def group? (cs : List Char) : Option (Nat × List Char) :=
  if 4 < (cs.takeWhile (isDigit 16)).length then none else number? 16 65536 cs

def groupsOfOctets : List Nat → List Nat
  | a :: b :: rest => (a * 256 + b) :: groupsOfOctets rest
  | _ => []

/-- At most `room` groups with colons between them, as many as there are; the last two may be
written as four octets, which end the groups. The flag says whether they were. -/
def groups (first : Bool) : (room : Nat) → List Char → List Nat × Bool × List Char
  | 0, cs => ([], false, cs)
  | room + 1, cs =>
    match if first then some cs else expect? ':' cs with
    | none => ([], false, cs)
    | some inner =>
      -- Four octets fill two groups, so the last place is too small for them.
      match if room = 0 then none else octets? inner with
      | some (octets, rest) => (groupsOfOctets octets, true, rest)
      | none =>
        match group? inner with
        | none => ([], false, cs)
        | some (group, rest) =>
          let (more, mapped, rest) := groups false room rest
          (group :: more, mapped, rest)

/-- Eight groups, a run of which may be left out as `::`. -/
def allGroups? (cs : List Char) : Option (List Nat × List Char) := do
  let (head, mapped, rest) := groups true 8 cs
  if head.length = 8 then return (head, rest)
  if mapped then none
  let rest ← expect? ':' (← expect? ':' rest)
  -- What is left out is at least one group.
  let (tail, _, rest) := groups true (7 - head.length) rest
  return (head ++ List.replicate (8 - head.length - tail.length) 0 ++ tail, rest)

def port? (cs : List Char) : Option (Nat × List Char) := do
  number? 10 65536 (← expect? ':' cs)

/-- The scope after a percent sign; without one the scope is zero. -/
def scope (cs : List Char) : Nat × List Char :=
  ((expect? '%' cs).bind (number? 10 0x100000000)).getD (0, cs)

def readV4? (cs : List Char) : Option (SocketAddress × List Char) := do
  let (octets, cs) ← octets? cs
  let (port, cs) ← port? cs
  return (.v4 octets port, cs)

def readV6? (cs : List Char) : Option (SocketAddress × List Char) := do
  let (groups, cs) ← allGroups? (← expect? '[' cs)
  let (scope, cs) := scope cs
  let (port, cs) ← port? (← expect? ']' cs)
  return (.v6 groups scope port, cs)

/-- The address a text denotes. -/
def ofText? (text : String) : Option SocketAddress :=
  match (readV4? text.toList).orElse fun _ => readV6? text.toList with
  | some (address, []) => some address
  | _ => none

/-- The length of the run of zeros in front of a list. -/
def zeros (groups : List Nat) : Nat :=
  (groups.takeWhile (· == 0)).length

/-- The start and length of the first longest run of zeros. -/
def longestZeros (groups : List Nat) : Nat × Nat :=
  (List.range groups.length).foldl
    (fun longest i =>
      if longest.2 < zeros (groups.drop i) then (i, zeros (groups.drop i)) else longest)
    (0, 0)

def octetsText (octets : List Nat) : String :=
  ".".intercalate (octets.map toString)

def groupsText (groups : List Nat) : String :=
  ":".intercalate (groups.map fun group => String.ofList (Nat.toDigits 16 group))

def compressed (groups : List Nat) : String :=
  let (start, length) := longestZeros groups
  if 1 < length then
    groupsText (groups.take start) ++ "::" ++ groupsText (groups.drop (start + length))
  else groupsText groups

def addressText : List Nat → String
  | [0, 0, 0, 0, 0, 0xFFFF, high, low] =>
    "::ffff:" ++ octetsText [high / 256, high % 256, low / 256, low % 256]
  | groups => compressed groups

def text : SocketAddress → String
  | .v4 octets port => octetsText octets ++ ":" ++ toString port
  | .v6 groups scope port =>
    let zone := if scope = 0 then "" else "%" ++ toString scope
    "[" ++ addressText groups ++ zone ++ "]:" ++ toString port

end SocketAddress

end ModelFeed
