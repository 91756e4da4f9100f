/-!
# Names

Property names, map keys and the names in filters are compared without regard to the case of
ASCII letters. Letters outside ASCII are told apart by case, so `É` and `é` are two names.
`sameName` is an equivalence relation because it compares folded spellings.
-/

namespace ModelFeed

/-- The spelling that all ASCII case variants of a name share. -/
def foldCase (name : String) : List Char :=
  name.toList.map Char.toLower

def sameName (a b : String) : Bool :=
  foldCase a == foldCase b

theorem sameName_iff (a b : String) : sameName a b = true ↔ foldCase a = foldCase b := by
  simp [sameName]

@[simp] theorem sameName_refl (a : String) : sameName a a = true := by
  simp [sameName]

theorem sameName_symm {a b : String} (h : sameName a b = true) : sameName b a = true := by
  rw [sameName_iff] at h ⊢
  exact h.symm

theorem sameName_trans {a b c : String} (hab : sameName a b = true) (hbc : sameName b c = true) :
    sameName a c = true := by
  rw [sameName_iff] at hab hbc ⊢
  exact hab.trans hbc

end ModelFeed
