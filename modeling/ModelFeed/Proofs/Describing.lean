import Mathlib.Data.List.Forall2
import ModelFeed.Proofs.Touching
/-!
# The filter of a path

A path is itself a filter: a step gives a name, and an item the index after it. One step may so give
one token or two, and a name token describes items as well as members, so a path and the filter of
another one do not run side by side. They stay in step all the same, because a filter goes on with a
name wherever a step of the path ends.
-/

namespace ModelFeed

/-- Whether a step goes where another one says: behind the same name, and to the same item if an
item is meant. A member may be followed by any index. -/
inductive Step.Describes : Step → Step → Prop
  | member {name : String} {step : Step} (same : sameName name step.name = true) :
      Describes (.member name) step
  | item {list other : String} {index : Nat} (same : sameName list other = true) :
      Describes (.item list index) (.item other index)

/-- A name that is no wildcard describes the steps behind that name. -/
theorem Token.selectsName_of_plain {text key : String} (single : text ≠ "*") :
    (Token.name text).selectsName key = sameName text key := by
  simp [single]

theorem Token.selectsIndex_natCast (wanted index : Nat) :
    Token.selectsIndex wanted index = true ↔ wanted = index := by
  simp only [selectsIndex, everyIndex, Bool.or_eq_true, beq_iff_eq]
  omega

namespace Path

variable {name list : String} {index : Nat} {step : Step} {path : Path} {wanted : Int}
  {more rest : List Token}

theorem tokens_ne_index (path : Path) : path.tokens ≠ .index wanted :: more := by
  cases path with
  | nil => simp
  | cons step path => cases step <;> simp [tokens_cons, Step.tokens]

/-- A name describes the first step if the rest describes what comes after it. -/
theorem coveredBy_plain_iff (plain : name ≠ "*" ∧ name ≠ "**")
    (goesOn : ∀ wanted more, rest ≠ .index wanted :: more) :
    coveredBy (step :: path) (.name name :: rest) = true ↔
      sameName name step.name = true ∧ path.coveredBy rest = true := by
  rw [coveredBy_cons_iff, Token.selectsName_of_plain plain.1]
  constructor
  · rintro (recursive | ⟨same, covered | ⟨-, -, wanted, more, -, ended, -⟩⟩)
    · exact absurd recursive (by simpa using plain.2)
    · exact ⟨same, covered⟩
    · exact absurd ended (goesOn wanted more)
  · rintro ⟨same, covered⟩
    exact .inr ⟨same, .inl covered⟩

/-- A name with an index describes an item, and nothing else. -/
theorem coveredBy_plain_item_iff (plain : list ≠ "*" ∧ list ≠ "**") :
    coveredBy (step :: path) (.name list :: .index (index : Nat) :: rest) = true ↔
      ∃ other, step = .item other index ∧ sameName list other = true ∧ path.coveredBy rest = true := by
  rw [coveredBy_cons_iff, Token.selectsName_of_plain plain.1]
  constructor
  · rintro (recursive | ⟨same, covered | ⟨other, i, wanted, more, rfl, ended, selected, covered⟩⟩)
    · exact absurd recursive (by simpa using plain.2)
    · -- The index would have to describe a step of its own.
      rw [coveredBy_index] at covered
      cases covered
    · cases ended
      obtain rfl := (Token.selectsIndex_natCast index i).mp selected
      exact ⟨other, rfl, same, covered⟩
  · rintro ⟨other, rfl, same, covered⟩
    refine .inr ⟨same, .inr ⟨other, index, index, rest, rfl, rfl, ?_, covered⟩⟩
    exact (Token.selectsIndex_natCast index index).mpr rfl

/-- **The filter of a path selects exactly that path.** It covers a path just if the two have the
same length and each step goes where the step in its place says. -/
theorem coveredBy_tokens_iff {source path : Path}
    (plain : ∀ step ∈ source, step.name ≠ "*" ∧ step.name ≠ "**")
    (small : ∀ list i, Step.item list i ∈ source → i ≤ Token.maxIndex) :
    path.coveredBy source.tokens = true ↔ List.Forall₂ Step.Describes source path := by
  induction source generalizing path with
  | nil =>
    cases path with
    | nil => simp [coveredBy_nil_iff]
    | cons step path => simp [coveredBy]
  | cons first source ih =>
    obtain ⟨here, later⟩ := List.forall_mem_cons.mp plain
    have below : ∀ list i, Step.item list i ∈ source → i ≤ Token.maxIndex :=
      fun list i inside => small list i (List.mem_cons_of_mem _ inside)
    cases path with
    | nil => cases first <;> simp [coveredBy_nil_iff, tokens_cons, Step.tokens]
    | cons step path =>
      rw [tokens_cons, List.forall₂_cons, ← ih later below]
      cases first with
      | member name =>
        refine (coveredBy_plain_iff here fun _ _ => tokens_ne_index source).trans ?_
        refine and_congr_left' ⟨.member, fun describes => ?_⟩
        cases describes with
        | member same => exact same
      | item list i =>
        have exact_ : min i Token.maxIndex = i := Nat.min_eq_left (small list i List.mem_cons_self)
        rw [Step.tokens, exact_]
        refine (coveredBy_plain_item_iff here).trans ?_
        constructor
        · rintro ⟨other, rfl, same, covered⟩
          exact ⟨.item same, covered⟩
        · rintro ⟨describes, covered⟩
          cases describes with
          | item same => exact ⟨_, rfl, same, covered⟩

/-- Names in another case, an item of the same index, and items where members are meant. -/
theorem coveredBy_tokens_iff_of_heater :
    let source : Path := [.member "heat", .item "heaters" 2, .member "current"]
    let path : Path := [.item "HEAT" 7, .item "Heaters" 2, .item "current" 0]
    (∀ step ∈ source, step.name ≠ "*" ∧ step.name ≠ "**") ∧
      (∀ list i, Step.item list i ∈ source → i ≤ Token.maxIndex) ∧
      path.coveredBy source.tokens = true ∧ List.Forall₂ Step.Describes source path := by
  intro source path
  have plain : ∀ step ∈ source, step.name ≠ "*" ∧ step.name ≠ "**" := by decide
  have small : ∀ list i, Step.item list i ∈ source → i ≤ Token.maxIndex := by
    intro list i inside
    obtain ⟨-, rfl⟩ : list = "heaters" ∧ i = 2 := by simpa [source] using inside
    decide
  have covered : path.coveredBy source.tokens = true := by decide
  exact ⟨plain, small, covered, (coveredBy_tokens_iff plain small).mp covered⟩

end Path

end ModelFeed
