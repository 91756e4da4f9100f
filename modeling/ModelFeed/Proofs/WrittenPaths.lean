import ModelFeed.Proofs.FilterGrammar
import ModelFeed.Proofs.Lexemes
/-!
# Written paths are read back

A path is written with its steps between dots, an item with its index in brackets. Read as a filter
the text gives the tokens of the path. Not every path can be told from its text: a name must not
hold a separator, a member must not look like an item, and the name of a list must not run over a
line end. The path to the member without a name is written like the empty path.
-/

namespace ModelFeed

/-- Whether a step can be told from its text. -/
inductive Step.IsLegible : Step → Prop
  | member {name : String} (noDot : '.' ∉ name.toList) (noSlash : '/' ∉ name.toList)
      (bare : ∀ stem selector, ¬Token.HasSelector name.toList stem selector) :
      IsLegible (.member name)
  | item {list : String} {index : Nat} (noDot : '.' ∉ list.toList) (noSlash : '/' ∉ list.toList)
      (oneLine : '\n' ∉ list.toList) (small : index ≤ Token.maxIndex) :
      IsLegible (.item list index)

variable {step : Step} {path : Path}

theorem Step.toList_text_item (list : String) (index : Nat) :
    (Step.item list index).text.toList =
      list.toList ++ '[' :: (Nat.toDigits 10 index ++ [']']) := by
  simp [text]

/-- An item has the index for its selector, whatever brackets its name holds. -/
theorem Step.IsLegible.hasSelector {list : String} {index : Nat}
    (legible : (Step.item list index).IsLegible) :
    Token.HasSelector (Step.item list index).text.toList list.toList (Nat.toDigits 10 index) := by
  cases legible with
  | item noDot noSlash oneLine small =>
    refine ⟨toList_text_item list index, oneLine, Nat.toDigits_ne_nil, fun c held => ?_⟩
    simp [Token.isSelectorChar, isDecimalDigit_of_isDigit (isDigit_of_mem_toDigits held)]

theorem Token.denotes_toDigits {index : Nat} (small : index ≤ maxIndex) :
    Denotes (Nat.toDigits 10 index) index := by
  have value : Nat.ofDigitChars 10 (Nat.toDigits 10 index) 0 = index := Nat.ofDigitChars_ten_toDigits
  have numeral : Denotes (Nat.toDigits 10 index) (Nat.ofDigitChars 10 (Nat.toDigits 10 index) 0) :=
    .numeral (fun _ => isDigit_of_mem_toDigits) (by rwa [value])
  rwa [value] at numeral

/-- A step is read back from its text. -/
theorem Step.IsLegible.reads (legible : step.IsLegible) :
    Token.Reads step.text.toList step.tokens := by
  cases step with
  | member name =>
    cases legible with
    | member noDot noSlash bare =>
      have read := Token.Reads.plain bare
      rwa [String.ofList_toList] at read
  | item list index =>
    have shape := legible.hasSelector
    cases legible with
    | item noDot noSlash oneLine small =>
      have read := Token.Reads.selected shape (Token.denotes_toDigits small)
      rw [String.ofList_toList] at read
      rwa [Step.tokens, Nat.min_eq_left small]

theorem Token.isSeparator_path_eq_false {chars : List Char} (noDot : '.' ∉ chars)
    (noSlash : '/' ∉ chars) : ∀ c ∈ chars, isSeparator .path c = false := by
  intro c held
  have notDot : c ≠ '.' := ne_of_mem_of_not_mem held noDot
  have notSlash : c ≠ '/' := ne_of_mem_of_not_mem held noSlash
  simp [isSeparator, notDot, notSlash]

/-- The text of a step holds no separator. -/
theorem Step.IsLegible.isWhole (legible : step.IsLegible) :
    ∀ c ∈ step.text.toList, Token.isSeparator .path c = false := by
  cases legible with
  | member noDot noSlash bare => exact Token.isSeparator_path_eq_false noDot noSlash
  | @item list index noDot noSlash oneLine small =>
    have digits : ∀ c ∈ Nat.toDigits 10 index, c.isDigit = true := fun _ => isDigit_of_mem_toDigits
    rw [Step.toList_text_item]
    apply Token.isSeparator_path_eq_false
    · simp only [List.mem_append, List.mem_cons, not_or]
      exact ⟨noDot, by decide, fun held => absurd (digits _ held) (by decide), by decide, by simp⟩
    · simp only [List.mem_append, List.mem_cons, not_or]
      exact ⟨noSlash, by decide, fun held => absurd (digits _ held) (by decide), by decide, by simp⟩

namespace Path

theorem toList_text (path : Path) :
    path.text.toList = ['.'].intercalate (path.map (·.text.toList)) := by
  simp [text, Function.comp_def]

theorem toList_text_cons (step next : Step) (path : Path) :
    (text (step :: next :: path)).toList = step.text.toList ++ '.' :: (text (next :: path)).toList := by
  simp [toList_text]

/-- The texts of the steps are the segments of the text. -/
theorem isCut_text (nonempty : path ≠ []) (legible : ∀ step ∈ path, step.IsLegible) :
    IsCut (Token.isSeparator .path) path.text.toList (path.map (·.text.toList)) := by
  induction path with
  | nil => exact absurd rfl nonempty
  | cons step path ih =>
    obtain ⟨here, later⟩ := List.forall_mem_cons.mp legible
    cases path with
    | nil =>
      have alone : (text [step]).toList = step.text.toList := by simp [toList_text]
      rw [alone]
      exact .last here.isWhole
    | cons next path =>
      rw [toList_text_cons]
      exact .next here.isWhole (by decide) (ih (List.cons_ne_nil _ _) later)

theorem eq_of_text_eq_empty (empty : path.text = "") : path = [] ∨ path = [.member ""] := by
  cases path with
  | nil => exact .inl rfl
  | cons step path =>
    right
    have none_ : (text (step :: path)).toList = [] := by simpa using empty
    cases path with
    | nil =>
      cases step with
      | member name =>
        have nameless : name = "" := by simpa [toList_text, Step.text] using none_
        rw [nameless]
      | item list index => simp [toList_text, Step.text] at none_
    | cons next path => simp [toList_text_cons] at none_

theorem segments_text (nonempty : path ≠ []) (legible : ∀ step ∈ path, step.IsLegible)
    (named : path ≠ [.member ""]) :
    Token.segments .path path.text = path.map (·.text.toList) := by
  have filled : path.text ≠ "" := fun empty => (eq_of_text_eq_empty empty).elim nonempty named
  rw [Token.segments, if_neg (by simpa using filled)]
  exact (isCut_text nonempty legible).pieces_eq

/-- **Written paths are read back.** A path of legible steps is written as a text that gives the
tokens of the path, unless it is written like the empty path. -/
theorem parse_text (legible : ∀ step ∈ path, step.IsLegible) (named : path ≠ [.member ""]) :
    Token.parse .path path.text = .ok path.tokens := by
  by_cases nonempty : path = []
  · subst nonempty
    rfl
  · rw [Token.parse_eq_ofSegments, segments_text nonempty legible named]
    apply Token.ofSegments_eq_ok_iff.mpr
    refine ⟨path.map Step.tokens, ?_, List.flatMap_def⟩
    rw [List.forall₂_map_left_iff, List.forall₂_map_right_iff, List.forall₂_same]
    exact fun step member => (legible step member).reads

/-- Brackets in the name of a list, an open bracket in that of a member, a name of stars, a name
that is empty and the largest index are no obstacle. -/
theorem parse_text_of_brackets :
    let path : Path := [.member "", .item "x[0]" 0x7FFFFFFF, .member "a[1", .item "**" 0]
    (∀ step ∈ path, step.IsLegible) ∧ path ≠ [.member ""] ∧
      path.text = ".x[0][2147483647].a[1.**[0]" ∧
      Token.parse .path path.text = .ok path.tokens := by
  intro path
  have legible : ∀ step ∈ path, step.IsLegible := by
    simp only [path, List.forall_mem_cons]
    refine ⟨?_, ?_, ?_, ?_, List.forall_mem_nil _⟩
    · exact .member (by decide) (by decide) (Token.splitSelector?_eq_none_iff.mp (by decide))
    · exact .item (by decide) (by decide) (by decide) (by decide)
    · exact .member (by decide) (by decide) (Token.splitSelector?_eq_none_iff.mp (by decide))
    · exact .item (by decide) (by decide) (by decide) (by decide)
  have named : path ≠ [.member ""] := by decide
  exact ⟨legible, named, by decide, parse_text legible named⟩

end Path

end ModelFeed
