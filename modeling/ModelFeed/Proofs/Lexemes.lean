import Mathlib.Tactic.IntervalCases
import ModelFeed.Json.Printer
import ModelFeed.Json.Reader
/-!
# Strings and integers are read back

The printer escapes the characters that would end a string or that may not stand in one, and the
reader undoes each escape. An integer is written without leading zeros, so it is read back as long
as what follows does not carry its digits on.
-/

namespace ModelFeed

/-! ### Strings -/

namespace Json

theorem hexDigit?_digitChar : ∀ digit < 16, hexDigit? (Nat.digitChar digit) = some digit := by
  decide

theorem unit?_of_lt {code : Nat} (small : code < 0x20) :
    unit? '0' '0' (Nat.digitChar (code / 16)) (Nat.digitChar (code % 16)) = some code := by
  have zero : hexDigit? '0' = some 0 := rfl
  simp only [unit?, zero, hexDigit?_digitChar (code / 16) (by omega),
    hexDigit?_digitChar (code % 16) (by omega), Option.pure_def, Option.bind_eq_bind,
    Option.bind_some, Option.some.injEq]
  omega

/-- The reader undoes each escape. -/
theorem readStringAfter?_charEscape (done rest : List Char) (c : Char) :
    readStringAfter? done (charEscape c ++ rest) = readStringAfter? (c :: done) rest := by
  unfold charEscape
  split
  next quote => subst quote; rfl
  split
  next backslash => subst backslash; rfl
  split
  next backspace => subst backspace; rfl
  split
  next formFeed => subst formFeed; rfl
  split
  next newline => subst newline; rfl
  split
  next carriageReturn => subst carriageReturn; rfl
  split
  next tab => subst tab; rfl
  split
  next control =>
    -- The unit of a control is the control itself, no surrogate.
    have notLow : isLowSurrogate c.toNat = false := by simp [isLowSurrogate]; omega
    have notHigh : isHighSurrogate c.toNat = false := by simp [isHighSurrogate]; omega
    simp [readStringAfter?, unit?_of_lt control, notLow, notHigh]
  next _ notBackslash _ _ _ _ _ printable =>
    -- Any other character stands for itself.
    simp [readStringAfter?, notBackslash, printable]

theorem readStringAfter?_flatMap_charEscape (content done rest : List Char) :
    readStringAfter? done (content.flatMap charEscape ++ '"' :: rest) =
      some (done.reverse ++ content, rest) := by
  induction content generalizing done with
  | nil => simp [readStringAfter?]
  | cons c content ih =>
    rw [List.flatMap_cons, List.append_assoc, readStringAfter?_charEscape, ih]
    simp

theorem stringChars_append (s : String) (rest : List Char) :
    stringChars s ++ rest = '"' :: (s.toList.flatMap charEscape ++ '"' :: rest) := by
  simp [stringChars]

theorem readString?_flatMap_charEscape (s : String) (rest : List Char) :
    readString? (s.toList.flatMap charEscape ++ '"' :: rest) = some (s, rest) := by
  simp [readString?, readStringAfter?_flatMap_charEscape]

end Json

/-! ### Integers -/

/-- Whether a character can carry a numeral on after its integer part. -/
def continuesNumeral (c : Char) : Bool :=
  c.isDigit || c == '.' || c == 'e' || c == 'E'

/-- Whether an integer can end before this text. -/
def endsNumeral (rest : List Char) : Bool :=
  rest.head?.all (!continuesNumeral ·)

theorem endsNumeral_cons {c : Char} {rest : List Char} : endsNumeral (c :: rest) = true ↔
    c.isDigit = false ∧ c ≠ '.' ∧ c ≠ 'e' ∧ c ≠ 'E' := by
  simp [endsNumeral, continuesNumeral, and_assoc]

theorem isDigit_of_mem_toDigits {n : Nat} {c : Char} (h : c ∈ Nat.toDigits 10 n) :
    c.isDigit = true :=
  Nat.isDigit_of_mem_toDigits (by decide) (by decide) h

theorem spanDigits_append {digits rest : List Char} (all : ∀ c ∈ digits, c.isDigit = true)
    (ends : endsNumeral rest = true) : spanDigits (digits ++ rest) = (digits, rest) := by
  have stops : rest.takeWhile Char.isDigit = [] ∧ rest.dropWhile Char.isDigit = rest := by
    cases rest with
    | nil => simp
    | cons c rest =>
      have other := (endsNumeral_cons.mp ends).1
      simp [other]
  rw [spanDigits, List.takeWhile_append_of_pos all, List.dropWhile_append_of_pos all, stops.1,
    stops.2, List.append_nil]

/-- Only zero is written with a zero in front. -/
theorem eq_zero_of_head?_toDigits {n : Nat} (h : (Nat.toDigits 10 n).head? = some '0') :
    n = 0 := by
  induction n using Nat.strongRecOn with
  | ind n ih =>
    -- The first digit of a longer numeral is the first digit of its tenth.
    by_cases small : n < 10
    · rw [Nat.toDigits_of_lt_base small, List.head?_cons, Option.some.injEq] at h
      interval_cases n <;> first | rfl | cases h
    · rw [Nat.toDigits_of_base_le (by decide) (by omega),
        List.head?_append, Option.or_of_isSome (List.isSome_head?.mpr Nat.toDigits_ne_nil)] at h
      have none := ih (n / 10) (by omega) h
      omega

/-- An integer starts with a digit or a minus sign. -/
theorem Number.exists_cons_integerChars (i : Int) : ∃ c cs, integerChars i = c :: cs ∧
    (c.isDigit = true ∨ c = '-') := by
  unfold integerChars
  split
  next => exact ⟨_, _, rfl, .inr rfl⟩
  next =>
    cases digits : Nat.toDigits 10 i.natAbs with
    | nil => exact absurd digits Nat.toDigits_ne_nil
    | cons c cs =>
      have held : c ∈ Nat.toDigits 10 i.natAbs := by
        rw [digits]
        exact List.mem_cons_self
      exact ⟨c, cs, rfl, .inl (isDigit_of_mem_toDigits held)⟩

namespace Numeral

theorem readWhole?_toDigits (n : Nat) {rest : List Char} (ends : endsNumeral rest = true) :
    readWhole? (Nat.toDigits 10 n ++ rest) = some (Nat.toDigits 10 n, rest) := by
  rw [readWhole?, spanDigits_append (fun _ => isDigit_of_mem_toDigits) ends]
  split
  next empty => exact absurd (congrArg Prod.fst empty) Nat.toDigits_ne_nil
  next second more _ padded =>
    have digits : Nat.toDigits 10 n = '0' :: second :: more := congrArg Prod.fst padded
    obtain rfl := eq_zero_of_head?_toDigits (n := n) (by rw [digits, List.head?_cons])
    cases digits
  next => rfl

theorem readUnsigned?_toDigits (negative : Bool) (n : Nat) {rest : List Char}
    (ends : endsNumeral rest = true) :
    readUnsigned? negative (Nat.toDigits 10 n ++ rest) =
      some (⟨negative, Nat.toDigits 10 n, [], none⟩, rest) := by
  have ended : readFraction? rest = some ([], rest) ∧ readExponent? rest = some (none, rest) := by
    cases rest with
    | nil => exact ⟨rfl, rfl⟩
    | cons c rest =>
      obtain ⟨-, notPoint, notSmall, notLarge⟩ := endsNumeral_cons.mp ends
      exact ⟨by simp [readFraction?, notPoint], by simp [readExponent?, notSmall, notLarge]⟩
  simp [readUnsigned?, readWhole?_toDigits n ends, ended]

theorem read?_integerChars (i : Int) {rest : List Char} (ends : endsNumeral rest = true) :
    read? (Number.integerChars i ++ rest) =
      some (⟨decide (i < 0), Nat.toDigits 10 i.natAbs, [], none⟩, rest) := by
  unfold Number.integerChars
  split
  next below => simp [read?, readUnsigned?_toDigits _ _ ends, below]
  next above =>
    -- A digit is not taken for a sign.
    rw [decide_eq_false above, ← readUnsigned?_toDigits false _ ends]
    unfold read?
    split
    next signed =>
      have minus : '-' ∈ Nat.toDigits 10 i.natAbs := by
        cases digits : Nat.toDigits 10 i.natAbs with
        | nil => exact absurd digits Nat.toDigits_ne_nil
        | cons c more =>
          rw [digits] at signed
          cases signed
          exact List.mem_cons_self
      exact absurd (isDigit_of_mem_toDigits minus) (by decide)
    next => rfl

theorem value?_toDigits {i : Int} (fits : FitsInteger i) :
    value? ⟨decide (i < 0), Nat.toDigits 10 i.natAbs, [], none⟩ = some (.integer i fits) := by
  have denoted : integer ⟨decide (i < 0), Nat.toDigits 10 i.natAbs, [], none⟩ = i := by
    simp only [integer, naturalOf, Nat.ofDigitChars_ten_toDigits, decide_eq_true_eq]
    split <;> omega
  have notMinusZero : (decide (i < 0) && i == 0) = false := by
    simp only [Bool.and_eq_false_iff, decide_eq_false_iff_not, beq_eq_false_iff_ne]
    omega
  simp [value?, denoted, fits, isWhole, notMinusZero]

end Numeral

end ModelFeed
