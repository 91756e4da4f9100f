import ModelFeed.Filter.Matching
import ModelFeed.Projection
/-!
# Filters that a change touches

A change touches a filter when the filter covers the path or one that leads to it, or when the
path leads to a parent of what the filter selects. Both are one thing: a front part of the path is
covered by a front part of the filter, and at least one of the two is used up.
-/

namespace ModelFeed.Path

/-- Whether a change at the path may alter what the filter selects. -/
def touches (path : Path) (filter : List Token) : Bool :=
  path.isWithin filter || path.isAbove filter

theorem isWithin_iff {path : Path} {filter : List Token} :
    path.isWithin filter = true ↔
      ∃ front back, front ++ back = path ∧ front ≠ [] ∧ front.coveredBy filter = true := by
  simp only [isWithin, List.any_eq_true, List.mem_range]
  constructor
  · rintro ⟨n, bound, covered⟩
    have nonempty : path.take (n + 1) ≠ [] := by
      intro empty
      have short := congrArg List.length empty
      simp only [List.length_take, List.length_nil] at short
      omega
    exact ⟨_, path.drop (n + 1), List.take_append_drop .., nonempty, covered⟩
  · rintro ⟨front, back, rfl, nonempty, covered⟩
    have positive := List.length_pos_iff.mpr nonempty
    refine ⟨front.length - 1, by simp only [List.length_append]; omega, ?_⟩
    rw [Nat.sub_add_cancel positive, List.take_left]
    exact covered

theorem isAbove_iff {path : Path} {filter : List Token} :
    path.isAbove filter = true ↔
      ∃ front back, front ++ back = filter ∧ front ≠ [] ∧ back ≠ [] ∧
        path.coveredBy front = true := by
  simp only [isAbove, List.any_eq_true, List.mem_range]
  constructor
  · rintro ⟨n, bound, covered⟩
    refine ⟨_, filter.drop (n + 1), List.take_append_drop .., ?_, ?_, covered⟩
    · intro empty
      have short := congrArg List.length empty
      simp only [List.length_take, List.length_nil] at short
      omega
    · intro empty
      have short := congrArg List.length empty
      simp only [List.length_drop, List.length_nil] at short
      omega
  · rintro ⟨front, back, rfl, nonempty, more, covered⟩
    have positive := List.length_pos_iff.mpr nonempty
    have remaining := List.length_pos_iff.mpr more
    refine ⟨front.length - 1, by simp only [List.length_append]; omega, ?_⟩
    rw [Nat.sub_add_cancel positive, List.take_left]
    exact covered

theorem coveredBy_nil_iff {filter : List Token} : coveredBy [] filter = true ↔ filter = [] := by
  change filter.isEmpty = true ↔ filter = []
  exact List.isEmpty_iff

/-- No step begins with an index. -/
theorem coveredBy_index (path : Path) (wanted : Int) (rest : List Token) :
    coveredBy path (.index wanted :: rest) = false := by
  cases path with
  | nil => rfl
  | cons step path =>
    cases step with
    | member name => rfl
    | item list index =>
      cases rest with
      | nil => rfl
      | cons next rest => cases next <;> rfl

/-- The first step of a covered path is described by a name, and the index after the name, if there
is one, describes the item. Without one the name describes every item. -/
theorem coveredBy_cons_iff {step : Step} {path : Path} {token : Token} {rest : List Token} :
    coveredBy (step :: path) (token :: rest) = true ↔
      token.isRecursive = true ∨ token.selectsName step.name = true ∧ (path.coveredBy rest = true ∨
        ∃ list index wanted more, step = .item list index ∧ rest = .index wanted :: more ∧
          Token.selectsIndex wanted index = true ∧ path.coveredBy more = true) := by
  cases step with
  | member name =>
    change (token.isRecursive || (token.selectsName name && path.coveredBy rest)) = true ↔ _
    simp [Step.name]
  | item list index =>
    -- Whether an index follows decides what the next step is described by.
    rcases rest with _ | ⟨text | wanted, more⟩
    · change (token.isRecursive || (token.selectsName list && path.coveredBy [])) = true ↔ _
      simp [Step.name]
    · change (token.isRecursive ||
        (token.selectsName list && path.coveredBy (.name text :: more))) = true ↔ _
      simp [Step.name]
    · change (token.isRecursive ||
        (token.selectsName list && Token.selectsIndex wanted index && path.coveredBy more)) = true ↔ _
      simp [Step.name, coveredBy_index, and_assoc]

theorem exists_cons_of_coveredBy {step : Step} {path : Path} {filter : List Token}
    (covered : coveredBy (step :: path) filter = true) : ∃ token rest, filter = token :: rest := by
  cases filter with
  | nil => cases covered
  | cons token rest => exact ⟨token, rest, rfl⟩

theorem coveredBy_of_recursive {token : Token} (h : token.isRecursive = true) (step : Step)
    (path : Path) (rest : List Token) : coveredBy (step :: path) (token :: rest) = true :=
  coveredBy_cons_iff.mpr (.inl h)

theorem coveredBy_step {step : Step} {token : Token} {path : Path} {rest : List Token}
    (selects : token.selectsName step.name = true) (covered : path.coveredBy rest = true) :
    coveredBy (step :: path) (token :: rest) = true :=
  coveredBy_cons_iff.mpr (.inr ⟨selects, .inl covered⟩)

theorem coveredBy_item {list : String} {index : Nat} {wanted : Int} {token : Token} {path : Path}
    {rest : List Token} (selects : token.selectsName list = true)
    (selected : Token.selectsIndex wanted index = true) (covered : path.coveredBy rest = true) :
    coveredBy (.item list index :: path) (token :: .index wanted :: rest) = true :=
  coveredBy_cons_iff.mpr (.inr ⟨selects, .inr ⟨list, index, wanted, rest, rfl, rfl, selected, covered⟩⟩)

theorem touches_iff {path : Path} {filter : List Token} :
    path.touches filter = true ↔
      ∃ front back start rest, front ++ back = path ∧ start ++ rest = filter ∧ front ≠ [] ∧
        (back = [] ∨ rest = []) ∧ front.coveredBy start = true := by
  rw [touches, Bool.or_eq_true, isWithin_iff, isAbove_iff]
  constructor
  · -- Either the filter is used up, and the path goes on, or the other way round.
    rintro (⟨front, back, rfl, nonempty, covered⟩ | ⟨start, rest, rfl, nonempty, -, covered⟩)
    · exact ⟨front, back, filter, [], rfl, List.append_nil _, nonempty, .inr rfl, covered⟩
    · refine ⟨path, [], start, rest, List.append_nil _, rfl, ?_, .inl rfl, covered⟩
      rintro rfl
      exact nonempty (coveredBy_nil_iff.mp covered)
  · rintro ⟨front, back, start, rest, rfl, rfl, nonempty, ended, covered⟩
    -- Where both are used up the path counts as being within the filter.
    by_cases more : rest = []
    · subst more
      left
      exact ⟨front, back, rfl, nonempty, by rwa [List.append_nil]⟩
    · obtain rfl := ended.resolve_right more
      right
      refine ⟨start, rest, rfl, ?_, more, by rwa [List.append_nil]⟩
      rintro rfl
      -- The front part of the filter cannot be empty, as it covers a step.
      cases front with
      | nil => exact nonempty rfl
      | cons step front => exact absurd covered Bool.false_ne_true

variable {step : Step} {path : Path} {token : Token} {rest : List Token}

/-- A change of the value that a filter goes through first. -/
theorem touches_of_last (selects : token.selectsName step.name = true) :
    touches [step] (token :: rest) = true :=
  touches_iff.mpr ⟨[step], [], [token], rest, rfl, rfl, List.cons_ne_nil _ _, .inl rfl,
    coveredBy_step selects rfl⟩

theorem touches_single (selects : token.selectsName step.name = true) :
    touches (step :: path) [token] = true :=
  touches_iff.mpr ⟨[step], path, [token], [], rfl, rfl, List.cons_ne_nil _ _, .inr rfl,
    coveredBy_step selects rfl⟩

/-- A change inside a value that a filter takes whole. -/
theorem touches_of_takesWhole (selects : token.selectsName step.name = true)
    (whole : takesWhole rest = true) : touches (step :: path) (token :: rest) = true := by
  cases path with
  | nil => exact touches_of_last selects
  | cons next path =>
    match rest, whole with
    | [], _ => exact touches_single selects
    | [last], whole =>
      have covered : coveredBy (step :: next :: path) [token, last] = true := by
        cases last with
        | index value => simp [takesWhole] at whole
        | name text =>
          -- The last token is `**`, which covers all that is below the first step.
          have recursive : (Token.name text).isRecursive = true := whole
          exact coveredBy_step selects (coveredBy_of_recursive recursive next path [])
      exact touches_iff.mpr ⟨_, [], _, [], List.append_nil _, List.append_nil _,
        List.cons_ne_nil _ _, .inl rfl, covered⟩

/-- A change below what a name stands for touches what the filter says about that. -/
theorem touches_step (selects : token.selectsName step.name = true)
    (below : path.touches rest = true) : touches (step :: path) (token :: rest) = true := by
  obtain ⟨front, back, start, more, rfl, rfl, -, ended, covered⟩ := touches_iff.mp below
  exact touches_iff.mpr ⟨step :: front, back, token :: start, more, rfl, rfl,
    List.cons_ne_nil _ _, ended, coveredBy_step selects covered⟩

/-- A change below an item touches what the filter says about the item. -/
theorem touches_item {list : String} {index : Nat} {wanted : Int}
    (selects : token.selectsName list = true)
    (selected : Token.selectsIndex wanted index = true) (below : path.touches rest = true) :
    touches (.item list index :: path) (token :: .index wanted :: rest) = true := by
  obtain ⟨front, back, start, more, rfl, rfl, -, ended, covered⟩ := touches_iff.mp below
  exact touches_iff.mpr ⟨.item list index :: front, back, token :: .index wanted :: start, more,
    rfl, rfl, List.cons_ne_nil _ _, ended, coveredBy_item selects selected covered⟩

/-- A change below an item that a filter takes whole. -/
theorem touches_selected_item {list : String} {index : Nat} {wanted : Int}
    (selects : token.selectsName list = true)
    (selected : Token.selectsIndex wanted index = true) :
    touches (.item list index :: path) [token, .index wanted] = true :=
  touches_iff.mpr ⟨[.item list index], path, [token, .index wanted], [], rfl, rfl,
    List.cons_ne_nil _ _, .inr rfl, coveredBy_item selects selected rfl⟩

/-! ### What a filter that is not touched cannot do -/

theorem selectsName_of_untouched (untouched : touches [step] (token :: rest) = false) :
    token.selectsName step.name = false :=
  Bool.eq_false_iff.mpr fun selects =>
    Bool.eq_false_iff.mp untouched (touches_of_last selects)

theorem takesWhole_of_untouched (untouched : touches (step :: path) (token :: rest) = false)
    (selects : token.selectsName step.name = true) : takesWhole rest = false :=
  Bool.eq_false_iff.mpr fun whole =>
    Bool.eq_false_iff.mp untouched (touches_of_takesWhole selects whole)

theorem untouched_below_member {name : String}
    (untouched : touches (.member name :: path) (token :: rest) = false)
    (selects : token.selectsName name = true) : path.touches rest = false :=
  Bool.eq_false_iff.mpr fun below =>
    Bool.eq_false_iff.mp untouched (touches_step selects below)

theorem untouched_below_item {list : String} {index : Nat} {wanted : Int}
    (untouched : touches (.item list index :: path) (token :: .index wanted :: rest) = false)
    (selects : token.selectsName list = true)
    (selected : Token.selectsIndex wanted index = true) :
    rest ≠ [] ∧ path.touches rest = false := by
  constructor
  · rintro rfl
    rw [touches_selected_item selects selected] at untouched
    cases untouched
  · exact Bool.eq_false_iff.mpr fun below =>
      Bool.eq_false_iff.mp untouched (touches_item selects selected below)

end ModelFeed.Path
