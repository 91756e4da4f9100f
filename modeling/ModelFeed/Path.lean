/-!
# Paths

A path leads from the root of the model to one value. Each step goes to a property or map key, or
to an item of the list under such a name. A path is written like the filter that selects its end.
-/

namespace ModelFeed

inductive Step where
  | member (name : String)
  | item (list : String) (index : Nat)
deriving DecidableEq, Repr

/-- The property or key a step goes through. -/
def Step.name : Step → String
  | .member name => name
  | .item list _ => list

def Step.text : Step → String
  | .member name => name
  | .item list index => list ++ "[" ++ toString index ++ "]"

abbrev Path := List Step

namespace Path

def text (path : Path) : String :=
  ".".intercalate (path.map Step.text)

/-- The steps before the last one, and the last one. -/
def splitLast? : Path → Option (Path × Step)
  | [] => none
  | [step] => some ([], step)
  | step :: path => (splitLast? path).map fun (parents, last) => (step :: parents, last)

@[simp] theorem splitLast?_append (parents : Path) (last : Step) :
    splitLast? (parents ++ [last]) = some (parents, last) := by
  induction parents with
  | nil => rfl
  | cons step parents ih =>
    cases parents with
    | nil => rfl
    | cons next parents =>
      simp only [List.cons_append] at ih ⊢
      simp [splitLast?, ih]

theorem splitLast?_eq_some_iff {path parents : Path} {last : Step} :
    path.splitLast? = some (parents, last) ↔ path = parents ++ [last] := by
  constructor
  · intro h
    induction path generalizing parents last with
    | nil => simp [splitLast?] at h
    | cons step path ih =>
      cases path with
      | nil =>
        simp only [splitLast?, Option.some.injEq, Prod.mk.injEq] at h
        obtain ⟨rfl, rfl⟩ := h
        rfl
      | cons next path =>
        simp only [splitLast?, Option.map_eq_some_iff, Prod.mk.injEq] at h
        obtain ⟨⟨front, final⟩, found, rfl, rfl⟩ := h
        simp [ih found]
  · rintro rfl
    exact splitLast?_append parents last

end Path

end ModelFeed
