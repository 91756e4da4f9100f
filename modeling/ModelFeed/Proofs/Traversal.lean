import Mathlib.Data.List.Forall2
/-!
# One after the other

A list is worked through from the left, and the first failure ends it. So it succeeds if every
element does, and it fails with the error of the first element that fails. Working through parts of
a list one after the other is working through the list.
-/

namespace ModelFeed

variable {ε α β γ : Type}

/-- What succeeds has succeeded in its first part. -/
theorem exists_ok_of_bind {first : Except ε α} {next : α → Except ε β} {result : β}
    (h : first >>= next = .ok result) : ∃ value, first = .ok value ∧ next value = .ok result := by
  cases first with
  | error error => cases h
  | ok value => exact ⟨value, rfl, h⟩

theorem map_eq_ok_iff {g : α → β} {result : Except ε α} {y : β} :
    g <$> result = .ok y ↔ ∃ x, result = .ok x ∧ g x = y := by
  cases result <;> simp [Functor.map, Except.map]

theorem map_eq_error_iff {g : α → β} {result : Except ε α} {error : ε} :
    g <$> result = .error error ↔ result = .error error := by
  cases result <;> simp [Functor.map, Except.map]

variable {f : α → Except ε β} {xs : List α} {ys : List β} {error : ε}

theorem mapM_eq_ok_iff : xs.mapM f = .ok ys ↔ List.Forall₂ (fun x y => f x = .ok y) xs ys := by
  induction xs generalizing ys with
  | nil => cases ys <;> simp [pure, Except.pure]
  | cons x xs ih =>
    rw [List.mapM_cons]
    constructor
    · intro h
      obtain ⟨y, first, h⟩ := exists_ok_of_bind h
      obtain ⟨later, rest, ended⟩ := exists_ok_of_bind h
      cases ended
      exact .cons first (ih.mp rest)
    · rintro (_ | ⟨first, rest⟩)
      rw [first, ih.mpr rest]
      rfl

/-- The first failure decides. -/
theorem mapM_eq_error_iff : xs.mapM f = .error error ↔
    ∃ before bad after, xs = before ++ bad :: after ∧ (∀ x ∈ before, ∃ y, f x = .ok y) ∧
      f bad = .error error := by
  constructor
  · intro failed
    induction xs with
    | nil => cases failed
    | cons x xs ih =>
      rw [List.mapM_cons] at failed
      cases first : f x with
      | error wrong =>
        -- Nothing comes before this element, and nothing after it is looked at.
        rw [first] at failed
        cases failed
        exact ⟨[], x, xs, rfl, List.forall_mem_nil _, first⟩
      | ok y =>
        have later : xs.mapM f = .error error := by
          rw [first] at failed
          cases rest : xs.mapM f with
          | error wrong =>
            rw [rest] at failed
            cases failed
            rfl
          | ok ys =>
            rw [rest] at failed
            cases failed
        obtain ⟨before, bad, after, rfl, fine, failed⟩ := ih later
        exact ⟨x :: before, bad, after, rfl, List.forall_mem_cons.mpr ⟨⟨y, first⟩, fine⟩, failed⟩
  · rintro ⟨before, bad, after, rfl, fine, failed⟩
    induction before with
    | nil =>
      rw [List.nil_append, List.mapM_cons, failed]
      rfl
    | cons x before ih =>
      obtain ⟨⟨y, first⟩, fine⟩ := List.forall_mem_cons.mp fine
      rw [List.cons_append, List.mapM_cons, first, ih fine]
      rfl

/-- What each element stands for is worked through in turn. -/
theorem mapM_flatMap (g : γ → List α) (f : α → Except ε β) (zs : List γ) :
    (zs.flatMap g).mapM f = List.flatten <$> zs.mapM fun z => (g z).mapM f := by
  induction zs with
  | nil => rfl
  | cons z zs ih =>
    rw [List.flatMap_cons, List.mapM_append, ih, List.mapM_cons]
    simp

end ModelFeed
