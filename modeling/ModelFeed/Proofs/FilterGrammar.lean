import Mathlib.Data.List.TakeWhile
import ModelFeed.Filter.Parser
import ModelFeed.Proofs.Traversal
/-!
# The grammar of filters

A filter is cut at its separators, and each segment is read by itself. A segment that has the shape
`name[selector]` gives a name and the index its selector denotes, any other a name. The grammar is
stated apart from the parser: how a text is cut, which segments have a selector, what a selector
denotes. The parser accepts exactly the texts of this grammar, reads them as it says, and for any
other text reports the first segment that has no reading.
-/

namespace ModelFeed

/-! ### Cutting a text -/

/-- The pieces of a list: none holds a separator, and one separator stands between two of them. -/
inductive IsCut {α : Type} (isSeparator : α → Bool) : List α → List (List α) → Prop
  | last {piece : List α} (inside : ∀ a ∈ piece, isSeparator a = false) :
      IsCut isSeparator piece [piece]
  | next {piece rest : List α} {separator : α} {cut : List (List α)}
      (inside : ∀ a ∈ piece, isSeparator a = false) (between : isSeparator separator = true)
      (later : IsCut isSeparator rest cut) :
      IsCut isSeparator (piece ++ separator :: rest) (piece :: cut)

section

variable {α : Type} {p : α → Bool} {l : List α} {cut : List (List α)}

/-- What is no separator goes into the first piece. -/
theorem IsCut.cons {a : α} (inside : p a = false) (h : IsCut p l cut) :
    IsCut p (a :: l) (consPiece a cut) := by
  cases h with
  | last rest => exact .last (List.forall_mem_cons.mpr ⟨inside, rest⟩)
  | next rest between later =>
    exact .next (List.forall_mem_cons.mpr ⟨inside, rest⟩) between later

theorem isCut_pieces (p : α → Bool) (l : List α) : IsCut p l (pieces p l) := by
  induction l with
  | nil => exact .last (by simp)
  | cons a l ih =>
    rw [pieces_cons]
    split
    next separator => exact .next (List.forall_mem_nil _) separator ih
    next inside => exact ih.cons (by simpa using inside)

/-- A list without separators in front of a list goes into its first piece. -/
theorem pieces_append {piece : List α} (inside : ∀ a ∈ piece, p a = false) (l : List α) :
    ∃ first rest, pieces p l = first :: rest ∧ pieces p (piece ++ l) = (piece ++ first) :: rest := by
  induction piece with
  | nil =>
    obtain ⟨first, rest, shape⟩ := List.exists_cons_of_ne_nil (pieces_ne_nil p l)
    exact ⟨first, rest, shape, shape⟩
  | cons a piece ih =>
    obtain ⟨here, later⟩ := List.forall_mem_cons.mp inside
    obtain ⟨first, rest, shape, joined⟩ := ih later
    refine ⟨first, rest, shape, ?_⟩
    rw [List.cons_append, pieces_cons, joined]
    simp [here, consPiece]

/-- There is one way to cut a list. -/
theorem IsCut.pieces_eq (h : IsCut p l cut) : pieces p l = cut := by
  induction h with
  | @last piece inside =>
    obtain ⟨first, rest, shape, joined⟩ := pieces_append inside []
    cases shape
    simpa using joined
  | @next piece rest separator cut inside between _ ih =>
    obtain ⟨first, later, shape, joined⟩ := pieces_append inside (separator :: rest)
    rw [pieces_cons, if_pos between, ih] at shape
    cases shape
    simpa using joined

end

namespace Token

/-! ### Segments and their selectors -/

/-- A segment of the shape `name[selector]`. -/
structure HasSelector (segment stem selector : List Char) : Prop where
  shape : segment = stem ++ '[' :: (selector ++ [']'])
  oneLine : '\n' ∉ stem
  nonempty : selector ≠ []
  chars : ∀ c ∈ selector, isSelectorChar c = true

/-- Which index a selector denotes. -/
inductive Denotes : List Char → Int → Prop
  | every : Denotes ['*'] everyIndex
  | numeral {selector : List Char} (digits : ∀ c ∈ selector, c.isDigit = true)
      (small : Nat.ofDigitChars 10 selector 0 ≤ maxIndex) :
      Denotes selector (Nat.ofDigitChars 10 selector 0)

/-- Which tokens a segment stands for. -/
inductive Reads : List Char → List Token → Prop
  | selected {segment stem selector : List Char} {value : Int}
      (shape : HasSelector segment stem selector) (denoted : Denotes selector value) :
      Reads segment [.name (String.ofList stem), .index value]
  | plain {segment : List Char} (shapeless : ∀ stem selector, ¬HasSelector segment stem selector) :
      Reads segment [.name (String.ofList segment)]

/-- What is wrong with a segment whose selector denotes no index. -/
def Faults (segment : List Char) (error : FilterError) : Prop :=
  ∃ stem selector, HasSelector segment stem selector ∧ (∀ value, ¬Denotes selector value) ∧
    error = if ',' ∈ selector then .indexList (String.ofList segment)
      else .invalidIndex (String.ofList segment) (String.ofList selector)

/-- Names, each followed by at most one index, which is at least `-1`. -/
inductive InOrder : List Token → Prop
  | nil : InOrder []
  | name {text : String} {rest : List Token} (later : InOrder rest) : InOrder (.name text :: rest)
  | indexed {text : String} {value : Int} {rest : List Token} (bounded : everyIndex ≤ value)
      (later : InOrder rest) : InOrder (.name text :: .index value :: rest)

variable {segment stem selector : List Char} {tokens : List Token} {error : FilterError} {value : Int}

theorem isSelectorChar_bracket : isSelectorChar '[' = false := by
  decide

/-- The selector is what stands between the last bracket that opens and the end. -/
theorem HasSelector.splitSelector? (h : HasSelector segment stem selector) :
    Token.splitSelector? segment = some (stem, selector) := by
  obtain ⟨rfl, oneLine, nonempty, chars⟩ := h
  -- From the end, the bracket that opens is the first character that cannot be part of a selector.
  have reversed : ∀ c ∈ selector.reverse, isSelectorChar c = true := by simpa using chars
  have taken : (selector.reverse ++ '[' :: stem.reverse).takeWhile isSelectorChar =
      selector.reverse := by
    rw [List.takeWhile_append_of_pos reversed, List.takeWhile_cons_of_neg (by
      simp [isSelectorChar_bracket]), List.append_nil]
  have dropped : (selector.reverse ++ '[' :: stem.reverse).dropWhile isSelectorChar =
      '[' :: stem.reverse := by
    rw [List.dropWhile_append_of_pos reversed, List.dropWhile_cons_of_neg (by
      simp [isSelectorChar_bracket])]
  simp [Token.splitSelector?, taken, dropped, oneLine, nonempty]

theorem hasSelector_of_splitSelector? (h : splitSelector? segment = some (stem, selector)) :
    HasSelector segment stem selector := by
  unfold splitSelector? at h
  split at h
  next front reversed =>
    split at h
    next before opened =>
      dsimp only at h
      split at h
      next => cases h
      next proper =>
        cases h
        simp only [Bool.or_eq_true, List.isEmpty_iff, List.reverse_eq_nil_iff,
          List.contains_iff_mem, not_or] at proper
        constructor
        · -- Reversed, the segment is the bracket that closes, the selector and the rest.
          have parts : front = front.takeWhile isSelectorChar ++ '[' :: before := by
            rw [← opened, List.takeWhile_append_dropWhile]
          rw [← List.reverse_inj, reversed]
          simpa using parts
        · simpa using proper.2
        · simpa using proper.1
        · intro c held
          exact List.mem_takeWhile_imp (List.mem_reverse.mp held)
    next => cases h
  next => cases h

theorem splitSelector?_eq_some_iff :
    splitSelector? segment = some (stem, selector) ↔ HasSelector segment stem selector := by
  constructor
  · exact hasSelector_of_splitSelector?
  · exact HasSelector.splitSelector?

theorem splitSelector?_eq_none_iff :
    splitSelector? segment = none ↔ ∀ stem selector, ¬HasSelector segment stem selector := by
  simp only [← splitSelector?_eq_some_iff, Option.eq_none_iff_forall_ne_some, Prod.forall, ne_eq]

/-- A comma in a selector is neither the star nor a digit. -/
theorem not_denotes_of_comma (comma : ',' ∈ selector) : ¬Denotes selector value := by
  intro denoted
  cases denoted with
  | every => simp at comma
  | numeral digits => exact absurd (digits _ comma) (by decide)

theorem ofSelector_eq_ok_iff : ofSelector segment selector = .ok value ↔ Denotes selector value := by
  unfold ofSelector
  constructor
  · intro h
    split at h
    next star =>
      subst star
      cases h
      exact .every
    next =>
      split at h
      next => cases h
      next =>
        split at h
        next numeral =>
          simp only [Bool.and_eq_true, List.all_eq_true, decide_eq_true_eq] at numeral
          cases h
          exact .numeral numeral.1 numeral.2
        next => cases h
  · intro denoted
    cases denoted with
    | every => rfl
    | numeral digits small =>
      -- Digits are neither a star nor a comma, so the tests before the last one are passed.
      have noStar : selector ≠ ['*'] := by
        rintro rfl
        exact absurd (digits '*' List.mem_cons_self) (by decide)
      have noComma : ',' ∉ selector := fun comma => not_denotes_of_comma comma (.numeral digits small)
      have numeral : (selector.all Char.isDigit &&
          decide (Nat.ofDigitChars 10 selector 0 ≤ maxIndex)) = true := by
        simpa [small] using digits
      rw [if_neg noStar, if_neg (by simpa using noComma), if_pos numeral]

theorem ofSelector_eq_error_iff : ofSelector segment selector = .error error ↔
    (∀ value, ¬Denotes selector value) ∧
      error = if ',' ∈ selector then .indexList (String.ofList segment)
        else .invalidIndex (String.ofList segment) (String.ofList selector) := by
  -- That nothing is denoted is that the reader does not succeed, so its branches can be compared.
  simp only [← @ofSelector_eq_ok_iff segment]
  unfold ofSelector
  simp only [List.contains_iff_mem]
  split
  next => simp
  next =>
    split
    next => simp [eq_comm]
    next =>
      split
      next => simp
      next => simp [eq_comm]

/-! ### Segments one by one -/

theorem ofSegment_eq_ok_iff : ofSegment segment = .ok tokens ↔ Reads segment tokens := by
  unfold ofSegment
  constructor
  · intro h
    split at h
    next none =>
      cases h
      exact .plain (splitSelector?_eq_none_iff.mp none)
    next stem selector split_ =>
      obtain ⟨value, read, ended⟩ := exists_ok_of_bind h
      cases ended
      exact .selected (splitSelector?_eq_some_iff.mp split_) (ofSelector_eq_ok_iff.mp read)
  · intro h
    cases h with
    | selected shape denoted =>
      rw [splitSelector?_eq_some_iff.mpr shape]
      dsimp only
      rw [ofSelector_eq_ok_iff.mpr denoted]
      rfl
    | plain shapeless => rw [splitSelector?_eq_none_iff.mpr shapeless]

theorem ofSegment_eq_error_iff : ofSegment segment = .error error ↔ Faults segment error := by
  unfold ofSegment Faults
  simp only [← splitSelector?_eq_some_iff]
  cases found : splitSelector? segment with
  | none => simp
  | some parts =>
    obtain ⟨stem, selector⟩ := parts
    simp only [Option.some.injEq, Prod.mk.injEq]
    constructor
    · intro h
      refine ⟨stem, selector, ⟨rfl, rfl⟩, ofSelector_eq_error_iff.mp ?_⟩
      cases read : ofSelector segment selector with
      | error wrong =>
        rw [read] at h
        cases h
        rfl
      | ok value => simp [read, bind, Except.bind, pure, Except.pure] at h
    · rintro ⟨_, _, ⟨rfl, rfl⟩, wrong⟩
      rw [ofSelector_eq_error_iff.mpr wrong]
      rfl

theorem Reads.not_faults (read : Reads segment tokens) : ¬Faults segment error := by
  rw [← ofSegment_eq_ok_iff] at read
  rw [← ofSegment_eq_error_iff, read]
  simp

theorem Denotes.everyIndex_le (denoted : Denotes selector value) : everyIndex ≤ value := by
  cases denoted with
  | every => exact Int.le_refl _
  | numeral digits small =>
    simp only [everyIndex]
    omega

theorem Reads.inOrder_append {rest : List Token} (read : Reads segment tokens)
    (later : InOrder rest) : InOrder (tokens ++ rest) := by
  cases read with
  | selected shape denoted =>
    exact .indexed denoted.everyIndex_le later
  | plain shapeless => exact .name later

/-! ### Segments in a row -/

theorem ofSegments_eq (segments : List (List Char)) :
    ofSegments segments = List.flatten <$> segments.mapM ofSegment := by
  induction segments with
  | nil => rfl
  | cons segment segments ih =>
    rw [ofSegments, ih, List.mapM_cons]
    cases ofSegment segment with
    | error wrong => rfl
    | ok first => cases segments.mapM ofSegment <;> rfl

theorem ofSegments_eq_ok_iff {segments : List (List Char)} : ofSegments segments = .ok tokens ↔
    ∃ groups, List.Forall₂ Reads segments groups ∧ tokens = groups.flatten := by
  simp only [ofSegments_eq, map_eq_ok_iff, mapM_eq_ok_iff, ofSegment_eq_ok_iff,
    eq_comm (a := tokens)]

theorem exists_ofSegment_eq_ok_iff :
    (∃ tokens, ofSegment segment = .ok tokens) ↔ ∀ wrong, ¬Faults segment wrong := by
  simp only [← ofSegment_eq_error_iff]
  cases ofSegment segment <;> simp

/-- The first bad segment decides. -/
theorem ofSegments_eq_error_iff {segments : List (List Char)} :
    ofSegments segments = .error error ↔
      ∃ before segment after, segments = before ++ segment :: after ∧
        (∀ earlier ∈ before, ∀ wrong, ¬Faults earlier wrong) ∧ Faults segment error := by
  simp only [ofSegments_eq, map_eq_error_iff, mapM_eq_error_iff, exists_ofSegment_eq_ok_iff,
    ofSegment_eq_error_iff]

theorem not_faults_of_reads {segments : List (List Char)} {groups : List (List Token)}
    (read : List.Forall₂ Reads segments groups) (member : segment ∈ segments) :
    ¬Faults segment error := by
  induction read with
  | nil => simp at member
  | cons first _ ih =>
    rcases List.mem_cons.mp member with rfl | later
    · exact first.not_faults
    · exact ih later

theorem ofSegments_fails_iff {segments : List (List Char)} :
    (∃ error, ofSegments segments = .error error) ↔
      ∃ segment ∈ segments, ∃ error, Faults segment error := by
  constructor
  · rintro ⟨error, failed⟩
    obtain ⟨before, segment, after, rfl, -, faults⟩ := ofSegments_eq_error_iff.mp failed
    exact ⟨segment, by simp, error, faults⟩
  · rintro ⟨segment, member, error, faults⟩
    cases result : ofSegments segments with
    | error wrong => exact ⟨wrong, rfl⟩
    | ok tokens =>
      obtain ⟨groups, read, -⟩ := ofSegments_eq_ok_iff.mp result
      exact absurd faults (not_faults_of_reads read member)

theorem exists_faults_iff : (∃ error, Faults segment error) ↔
    ∃ stem selector, HasSelector segment stem selector ∧ ∀ value, ¬Denotes selector value := by
  constructor
  · rintro ⟨-, stem, selector, shape, none_, -⟩
    exact ⟨stem, selector, shape, none_⟩
  · rintro ⟨stem, selector, shape, none_⟩
    exact ⟨_, stem, selector, shape, none_, rfl⟩

theorem inOrder_flatten {segments : List (List Char)} {groups : List (List Token)}
    (read : List.Forall₂ Reads segments groups) : InOrder groups.flatten := by
  induction read with
  | nil => exact .nil
  | cons first _ ih => exact first.inOrder_append ih

theorem flatten_startsWith_name {segments : List (List Char)} {groups : List (List Token)}
    (read : List.Forall₂ Reads segments groups) (nonempty : segments ≠ []) :
    ∃ text rest, groups.flatten = .name text :: rest := by
  cases read with
  | nil => exact absurd rfl nonempty
  | cons first _ => cases first <;> exact ⟨_, _, rfl⟩

/-! ### Whole texts -/

/-- The segments of a filter. The empty text has none. -/
def segments (place : FilterPlace) (text : String) : List (List Char) :=
  if text.isEmpty then [] else pieces (isSeparator place) text.toList

theorem parse_eq_ofSegments (place : FilterPlace) (text : String) :
    parse place text = ofSegments (segments place text) := by
  unfold parse segments
  split
  next => rfl
  next => rfl

theorem isCut_segments {place : FilterPlace} {text : String} (filled : text ≠ "") :
    IsCut (isSeparator place) text.toList (segments place text) := by
  rw [segments, if_neg (by simpa using filled)]
  exact isCut_pieces _ _

theorem segments_ne_nil {place : FilterPlace} {text : String} (filled : text ≠ "") :
    segments place text ≠ [] := by
  rw [segments, if_neg (by simpa using filled)]
  exact pieces_ne_nil _ _

/-- **The parser accepts exactly the grammar.** A text is refused if and only if one of its segments
has a selector that denotes no index, and the error is that of the first such segment. Any other
text is read segment by segment, so it starts with a name and has an index only right after one. -/
theorem parse_grammar (place : FilterPlace) (text : String) :
    (text = "" → segments place text = []) ∧
      (text ≠ "" → IsCut (isSeparator place) text.toList (segments place text)) ∧
      ((∃ error, parse place text = .error error) ↔ ∃ segment ∈ segments place text,
        ∃ stem selector, HasSelector segment stem selector ∧ ∀ value, ¬Denotes selector value) ∧
      (∀ error, parse place text = .error error ↔ ∃ before segment after,
        segments place text = before ++ segment :: after ∧
          (∀ earlier ∈ before, ∀ wrong, ¬Faults earlier wrong) ∧ Faults segment error) ∧
      (∀ tokens, parse place text = .ok tokens ↔ ∃ groups,
        List.Forall₂ Reads (segments place text) groups ∧ tokens = groups.flatten) ∧
      ∀ tokens, parse place text = .ok tokens →
        InOrder tokens ∧ (text ≠ "" → ∃ name rest, tokens = .name name :: rest) := by
  rw [parse_eq_ofSegments]
  refine ⟨fun empty => by simp [segments, empty], isCut_segments, ?_,
    fun _ => ofSegments_eq_error_iff, fun _ => ofSegments_eq_ok_iff, ?_⟩
  · simp only [ofSegments_fails_iff, exists_faults_iff]
  · intro tokens parsed
    obtain ⟨groups, read, rfl⟩ := ofSegments_eq_ok_iff.mp parsed
    constructor
    · exact inOrder_flatten read
    · intro filled
      exact flatten_startsWith_name read (segments_ne_nil filled)

/-- A foreign digit makes a selector that denotes nothing, and it comes before the index list. -/
example : parse .path "move.axes[01]/[*].tools[٣].heaters[0,1]" =
    .error (.invalidIndex "tools[٣]" "٣") := by
  decide

end Token

namespace Filter

theorem parse_eq_ok_iff {place : FilterPlace} {text : String} {filter : Filter} :
    parse place text = .ok filter ↔ filter.raw = text ∧ Token.parse place text = .ok filter.tokens := by
  constructor
  · intro h
    obtain ⟨tokens, read, ended⟩ := exists_ok_of_bind h
    cases ended
    exact ⟨rfl, read⟩
  · rintro ⟨rfl, read⟩
    rw [parse, read]
    rfl

theorem exists_parse_eq_ok_iff {place : FilterPlace} {text : String} :
    (∃ filter, parse place text = .ok filter) ↔ ∃ tokens, Token.parse place text = .ok tokens := by
  simp only [parse_eq_ok_iff]
  constructor
  · rintro ⟨filter, -, read⟩
    exact ⟨filter.tokens, read⟩
  · rintro ⟨tokens, read⟩
    exact ⟨⟨text, tokens⟩, rfl, read⟩

theorem parse_eq_error_iff {place : FilterPlace} {text : String} {error : FilterError} :
    parse place text = .error error ↔ Token.parse place text = .error error := by
  rw [parse]
  cases Token.parse place text <;> simp [bind, Except.bind, pure, Except.pure]

end Filter

end ModelFeed
