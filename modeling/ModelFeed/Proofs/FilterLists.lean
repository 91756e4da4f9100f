import ModelFeed.Proofs.FilterGrammar
import ModelFeed.Subscription
/-!
# Filters in one text or in many

A subscription is given several texts, each of which may hold several filters. It makes no difference
how the filters are spread over texts: texts that are joined with separators give the filters, or the
error, that they give one by one. The comma needs a condition, because inside a selector it separates
nothing. What an open bracket in one text could do to the next is the only thing to look after, and
every separator that splits ends it.

The scanner carries one bit, whether it is inside a selector. `LeavesOpen` says what a text does to
this bit without the scanner, and `endsInside_iff` that the two agree. Behind a separator that splits
the bit is as it is at the start, so the rest is cut like a text of its own (`entriesFrom_append`).
-/

namespace ModelFeed

namespace Filter

/-- The separators that split everywhere, also inside a selector. -/
def alwaysSplits (c : Char) : Bool :=
  c == '|' || c == '\r' || c == '\n' || c == ' '

/-- What ends a selector that was opened. -/
def closesSelector (c : Char) : Bool :=
  c == ']' || alwaysSplits c

/-- Whether a text ends inside a selector: nothing ends the one that some bracket opens. -/
def LeavesOpen (text : List Char) : Prop :=
  ∃ before inside, text = before ++ '[' :: inside ∧ ∀ c ∈ inside, closesSelector c = false

/-- Whether a character after a text separates what comes before it from what comes after it. -/
def SplitsAfter (text : List Char) (c : Char) : Prop :=
  alwaysSplits c = true ∨ c = ',' ∧ ¬LeavesOpen text

/-- Texts and what they are joined to, with one separator between each two of them. -/
inductive Joins : List String → String → Prop
  | none : Joins [] ""
  | one (text : String) : Joins [text] text
  | next {texts : List String} {text : String} {separator : Char} (joined : Joins texts text)
      (nonempty : texts ≠ []) (splits : SplitsAfter text.toList separator) (last : String) :
      Joins (texts ++ [last]) (text.push separator ++ last)

/-! ### What the scanner does at a character -/

/-- Whether the scanner is inside a selector after a character. -/
def advance (inside : Bool) (c : Char) : Bool :=
  c == '[' || inside && !closesSelector c

/-- Whether the scanner splits at a character. -/
def splitsAt (inside : Bool) (c : Char) : Bool :=
  alwaysSplits c || c == ',' && !inside

variable {inside : Bool} {c separator : Char} {text : List Char}

theorem advance_iff : advance inside c = true ↔
    c = '[' ∨ inside = true ∧ closesSelector c = false := by
  simp [advance]

theorem advance_of_splitsAt (splits : splitsAt inside c = true) : advance inside c = false := by
  apply Bool.eq_false_iff.mpr
  intro stays
  rcases advance_iff.mp stays with rfl | ⟨rfl, unclosed⟩
  · simp [splitsAt, alwaysSplits] at splits
  · simp only [closesSelector, Bool.or_eq_false_iff] at unclosed
    simp [splitsAt, unclosed.2] at splits

theorem entriesFrom_cons (inside : Bool) (c : Char) (cs : List Char) :
    entriesFrom inside (c :: cs) =
      if splitsAt inside c then [] :: entriesFrom (advance inside c) cs
      else consPiece c (entriesFrom (advance inside c) cs) := by
  rw [entriesFrom]
  -- The scanner has a case of its own for the brackets and the comma.
  by_cases opens : c = '['
  · subst opens
    simp [splitsAt, alwaysSplits, advance]
  by_cases closes : c = ']'
  · subst closes
    simp [splitsAt, alwaysSplits, advance, closesSelector]
  by_cases comma : c = ','
  · subst comma
    cases inside <;> simp [splitsAt, alwaysSplits, advance, closesSelector, isListSeparator]
  · have notOpen : (c == '[') = false := by simpa using opens
    have notClose : (c == ']') = false := by simpa using closes
    have notComma : (c == ',') = false := by simpa using comma
    have separates : isListSeparator c = alwaysSplits c := by
      simp [isListSeparator, alwaysSplits, notComma]
    rw [if_neg opens, if_neg closes, if_neg (fun both => comma both.1), separates]
    cases splits : alwaysSplits c <;>
      simp [splitsAt, advance, closesSelector, splits, notOpen, notClose, notComma]

theorem entriesFrom_ne_nil (inside : Bool) (cs : List Char) : entriesFrom inside cs ≠ [] := by
  cases cs with
  | nil => simp [entriesFrom]
  | cons c cs =>
    rw [entriesFrom_cons]
    split
    · simp
    · cases entriesFrom (advance inside c) cs <;> simp [consPiece]

theorem consPiece_append {c : Char} {front : List (List Char)} (nonempty : front ≠ [])
    (back : List (List Char)) : consPiece c (front ++ back) = consPiece c front ++ back := by
  cases front with
  | nil => exact absurd rfl nonempty
  | cons piece front => rfl

/-! ### What a text does to the scanner -/

/-- Whether the scanner is inside a selector after a text. -/
def endsInside (inside : Bool) (text : List Char) : Bool :=
  text.foldl advance inside

theorem leavesOpen_cons : LeavesOpen (c :: text) ↔
    LeavesOpen text ∨ c = '[' ∧ ∀ d ∈ text, closesSelector d = false := by
  constructor
  · rintro ⟨before, inside, parts, unclosed⟩
    cases before with
    | nil =>
      cases parts
      exact .inr ⟨rfl, unclosed⟩
    | cons first before =>
      cases parts
      exact .inl ⟨before, inside, rfl, unclosed⟩
  · rintro (⟨before, inside, rfl, unclosed⟩ | ⟨rfl, unclosed⟩)
    · exact ⟨c :: before, inside, rfl, unclosed⟩
    · exact ⟨[], text, rfl, unclosed⟩

/-- The scanner is inside a selector if the text leaves one open, or has not ended the one that was
open before. -/
theorem endsInside_iff : endsInside inside text = true ↔
    LeavesOpen text ∨ inside = true ∧ ∀ c ∈ text, closesSelector c = false := by
  induction text generalizing inside with
  | nil => simp [endsInside, LeavesOpen]
  | cons c text ih =>
    change endsInside (advance inside c) text = true ↔ _
    rw [ih, advance_iff, leavesOpen_cons, List.forall_mem_cons, or_and_right, and_assoc, or_assoc]

theorem SplitsAfter.splitsAt (splits : SplitsAfter text c) :
    Filter.splitsAt (endsInside false text) c = true := by
  rcases splits with always | ⟨rfl, closed⟩
  · simp [Filter.splitsAt, always]
  · have outside : endsInside false text = false := by
      apply Bool.eq_false_iff.mpr
      intro ends
      rcases endsInside_iff.mp ends with opened | ⟨inside, -⟩
      · exact closed opened
      · cases inside
    simp [Filter.splitsAt, outside]

/-! ### What the scanner does at a separator -/

/-- Behind a separator that splits, the scanner starts afresh. -/
theorem entriesFrom_append (splits : splitsAt (endsInside inside text) separator = true)
    (rest : List Char) : entriesFrom inside (text ++ separator :: rest) =
      entriesFrom inside text ++ entriesFrom false rest := by
  induction text generalizing inside with
  | nil =>
    replace splits : splitsAt inside separator = true := splits
    rw [List.nil_append, entriesFrom_cons, if_pos splits, advance_of_splitsAt splits]
    rfl
  | cons c text ih =>
    have later := @ih (advance inside c) splits
    rw [List.cons_append, entriesFrom_cons, entriesFrom_cons, later]
    split
    · rfl
    · exact consPiece_append (entriesFrom_ne_nil _ _) _

theorem entries_push_append {text : String} (splits : SplitsAfter text.toList separator)
    (last : String) : entries (text.push separator ++ last) = entries text ++ entries last := by
  have joined : (text.push separator ++ last).toList = text.toList ++ separator :: last.toList := by
    simp
  have cut := entriesFrom_append splits.splitsAt last.toList
  rw [entries, joined, cut, List.filter_append, List.map_append]
  rfl

/-- What texts are joined to is cut into the entries of the one after those of the other. -/
theorem Joins.entries_eq {texts : List String} {text : String} (joins : Joins texts text) :
    entries text = texts.flatMap entries := by
  induction joins with
  | none => rfl
  | one text => simp
  | next joined nonempty splits last ih =>
    rw [entries_push_append splits, ih, List.flatMap_append, List.flatMap_singleton]

/-- The commas of an index list split nothing, wherever the list stands. -/
example : entries "heat[0,1],tools[0,1 job,state" = ["heat[0,1]", "tools[0,1", "job", "state"] := by
  decide

end Filter

namespace Subscription

open ModelFeed.Filter (Joins entries)

/-- A subscription has the filters of all entries of all texts. -/
theorem parse_eq (mode : UpdateMode) (texts : List String) :
    parse mode texts = mk mode <$> (texts.flatMap entries).mapM (Filter.parse .path) := by
  rw [mapM_flatMap]
  change (texts.mapM Filter.parseList >>= fun filters => pure ⟨mode, filters.flatten⟩) =
    mk mode <$> List.flatten <$> texts.mapM Filter.parseList
  cases texts.mapM Filter.parseList <;> rfl

/-- **Splitting filters over texts or separators is the same.** Texts joined with separators give the
subscription that the texts give. Its filters are those of the entries in order; if one of them is
bad, the first bad one decides the error. -/
theorem parse_joined {texts : List String} {text : String} (joins : Joins texts text)
    (mode : UpdateMode) :
    parse mode [text] = parse mode texts ∧
      (∀ s, parse mode texts = .ok s ↔ s.mode = mode ∧ List.Forall₂
        (fun entry filter => filter.raw = entry ∧ Token.parse .path entry = .ok filter.tokens)
        (texts.flatMap entries) s.filters) ∧
      ∀ error, parse mode texts = .error error ↔ ∃ before bad after,
        texts.flatMap entries = before ++ bad :: after ∧
          (∀ entry ∈ before, ∃ tokens, Token.parse .path entry = .ok tokens) ∧
          Token.parse .path bad = .error error := by
  refine ⟨?_, fun s => ?_, fun error => ?_⟩
  · rw [parse_eq, parse_eq, List.flatMap_singleton, joins.entries_eq]
  · simp only [parse_eq, map_eq_ok_iff, mapM_eq_ok_iff, Filter.parse_eq_ok_iff]
    constructor
    · rintro ⟨filters, read, rfl⟩
      exact ⟨rfl, read⟩
    · rintro ⟨rfl, read⟩
      exact ⟨s.filters, read, rfl⟩
  · simp only [parse_eq, map_eq_error_iff, mapM_eq_error_iff, Filter.parse_eq_error_iff,
      Filter.exists_parse_eq_ok_iff]

/-- A bracket that is left open in one text does not reach into the next, the index list in the
middle is the first bad filter, and the closed bracket before the comma keeps nothing together. -/
theorem parse_joined_of_brackets :
    let texts := ["move.axes[1", "job[0,1] tools[1*]", "state.é"]
    let text := "move.axes[1|job[0,1] tools[1*],state.é"
    Joins texts text ∧ parse .full [text] = parse .full texts ∧
      parse .full texts = .error (.indexList "job[0,1]") := by
  intro texts text
  have closed : ¬Filter.LeavesOpen ("move.axes[1".push '|' ++ "job[0,1] tools[1*]").toList := by
    intro opened
    have inside : Filter.endsInside false _ = true := Filter.endsInside_iff.mpr (.inl opened)
    exact absurd inside (by decide)
  have bar : Filter.SplitsAfter "move.axes[1".toList '|' := .inl rfl
  have first := Joins.next (.one "move.axes[1") (List.cons_ne_nil _ _) bar "job[0,1] tools[1*]"
  have joined : ("move.axes[1".push '|' ++ "job[0,1] tools[1*]").push ',' ++ "state.é" = text := by
    decide
  have joins : Joins texts text := by
    rw [← joined]
    exact .next first (List.cons_ne_nil _ _) (.inr ⟨rfl, closed⟩) "state.é"
  exact ⟨joins, (parse_joined joins .full).1, by decide⟩

end Subscription

end ModelFeed
