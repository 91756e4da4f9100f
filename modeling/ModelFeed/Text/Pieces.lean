/-!
# Pieces between separators

`pieces` cuts a list at every separator. There is one piece more than there are separators, so the
empty list has one empty piece.
-/

namespace ModelFeed

variable {α : Type}

/-- Puts an element in front of the first piece. -/
def consPiece (a : α) : List (List α) → List (List α)
  | [] => [[a]]
  | piece :: rest => (a :: piece) :: rest

def pieces (isSeparator : α → Bool) (l : List α) : List (List α) :=
  l.foldr (fun a done => if isSeparator a then [] :: done else consPiece a done) [[]]

@[simp] theorem pieces_nil (p : α → Bool) : pieces p [] = [[]] := rfl

theorem pieces_cons (p : α → Bool) (a : α) (l : List α) :
    pieces p (a :: l) = if p a then [] :: pieces p l else consPiece a (pieces p l) := rfl

theorem pieces_ne_nil (p : α → Bool) (l : List α) : pieces p l ≠ [] := by
  cases l with
  | nil => simp
  | cons a l =>
    rw [pieces_cons]
    split
    · simp
    · cases pieces p l <;> simp [consPiece]

end ModelFeed
