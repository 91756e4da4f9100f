import ModelFeed.Proofs.Excerpts
/-!
# Narrower filters

One filter is narrower than another if, token by token, it selects no more, and goes on where the
other takes a value whole. The projection onto the narrower one is a part of the projection onto
the wider one.
-/

namespace ModelFeed

namespace Token

/-- Whether a filter selects nothing beyond what another one selects. -/
def isNarrower : (narrow wide : List Token) → Bool
  | .name text :: narrow, .name other :: wide =>
    (other == "*" || text != "*" && sameName other text) &&
      (takesWhole wide || !takesWhole narrow && isNarrower narrow wide)
  | .index value :: narrow, .index other :: wide =>
    (other == everyIndex || value == other) &&
      (wide.isEmpty || !narrow.isEmpty && isNarrower narrow wide)
  | _, _ => false

theorem selectsName_of_wider {text other key : String}
    (wider : (other == "*" || text != "*" && sameName other text) = true)
    (selects : (name text).selectsName key = true) : (name other).selectsName key = true := by
  simp only [selectsName_name, Bool.or_eq_true, Bool.and_eq_true, beq_iff_eq, bne_iff_ne] at *
  rcases wider with every | ⟨single, same⟩
  · exact .inl every
  · exact .inr (sameName_trans same (selects.resolve_left single))

end Token

namespace Node

variable {node part : Node} {narrow wide : List Token}

/-- What the narrower filter leaves of a slot is an excerpt of what the wider one leaves of it. -/
theorem keepSlot_mono {place : Node → Node} {chosen wider : Option Nat} {i : Nat} {slot : Node}
    (distinct : slot.hasDistinctKeys = true) (bare : (place slot).isEmptyContainer = true)
    (within : chosen.any (· != i) = false → wider.any (· != i) = false)
    (further : wide.isEmpty = true ∨ narrow.isEmpty = false ∧ ∀ part,
      slot.project? narrow = some part →
        ∃ whole, slot.project? wide = some whole ∧ part.ExcerptOf whole) :
    (keepSlot place chosen narrow i slot).FitsSlot (keepSlot place wider wide i slot) := by
  have whole := ExcerptOf.refl distinct
  by_cases null : slot.isNull = true
  · rw [keepSlot_of_isNull null, keepSlot_of_isNull null]
    exact .inr whole
  · by_cases here : chosen.any (· != i) = true
    · -- Where the narrower filter leaves the slot out, anything may come of it in the wider one.
      rw [keepSlot, if_neg null, if_pos here]
      exact .inl bare
    · have alsoHere := within (by simpa using here)
      by_cases ended : wide.isEmpty = true
      · have left : keepSlot place wider wide i slot = slot := by
          simp [keepSlot, null, alsoHere, ended]
        rw [left]
        exact fitsSlot_keepSlot bare whole fun part found => project?_excerptOf distinct found
      · obtain ⟨more, goesOn⟩ := further.resolve_left ended
        rw [keepSlot, if_neg null, if_neg here, if_neg (by simp [more])]
        cases found : slot.project? narrow with
        | none => exact .inl bare
        | some part =>
          obtain ⟨copy, copied, below⟩ := goesOn part found
          have left : keepSlot place wider wide i slot = copy := by
            simp [keepSlot, null, alsoHere, ended, copied]
          rw [left]
          exact .inr below

/-- Where a larger selection keeps more of each member, the smaller one is an excerpt of it. -/
theorem selectedMembers?_mono {ms : List Member} (distinct : (ms.map Member.key).Nodup)
    {small large : Member → Option (String × Node)}
    (keys : ∀ m pair, small m = some pair → pair.1 = m.key)
    (keysLarge : ∀ m pair, large m = some pair → pair.1 = m.key)
    (lift : ∀ m ∈ ms, ∀ pair, small m = some pair →
      ∃ copy, large m = some (m.key, copy) ∧ pair.2.ExcerptOf copy)
    (h : selectedMembers? (ms.filterMap small) = some part) :
    ∃ whole, selectedMembers? (ms.filterMap large) = some whole ∧ part.ExcerptOf whole := by
  have once := Entries.nodup_keys_filterMap keys distinct
  have onceLarge := Entries.nodup_keys_filterMap keysLarge distinct
  have held : ∀ pair ∈ ms.filterMap small, ∃ copy,
      (pair.1, copy) ∈ ms.filterMap large ∧ pair.2.ExcerptOf copy := by
    intro pair listed
    obtain ⟨m, member, selected⟩ := List.mem_filterMap.mp listed
    obtain ⟨copy, kept, below⟩ := lift m member pair selected
    rw [keys m pair selected]
    exact ⟨copy, List.mem_filterMap.mpr ⟨m, member, kept⟩, below⟩
  obtain ⟨nonempty, rfl⟩ := selectedMembers?_eq_some h
  obtain ⟨first, listed⟩ := List.exists_mem_of_ne_nil _ nonempty
  obtain ⟨copy, also, -⟩ := held first listed
  refine ⟨_, selectedMembers?_of_mem onceLarge also, ?_⟩
  rw [Entries.ofList_eq_self once]
  refine (excerptOf_map_of_opened rfl).mpr ⟨once, fun key value found => ?_⟩
  obtain ⟨copy, also, below⟩ := held (key, value) (Entries.mem_of_get? found)
  exact ⟨copy, Entries.get?_of_mem onceLarge also, below⟩

theorem selectedIndex?_of_wider {value other : Int} {length : Nat} {chosen : Option Nat}
    (wider : (other == Token.everyIndex || value == other) = true)
    (selected : selectedIndex? value length = some chosen) :
    ∃ all, selectedIndex? other length = some all ∧ (all = none ∨ all = chosen) := by
  simp only [Bool.or_eq_true, beq_iff_eq] at wider
  rcases wider with rfl | rfl
  · exact ⟨none, rfl, .inl rfl⟩
  · exact ⟨chosen, selected, .inr rfl⟩

/-- Whatever the first filter leaves of a model, the second leaves more of it. -/
def LeavesLess (narrow wide : List Token) : Prop :=
  ∀ {node part : Node}, node.hasDistinctKeys = true → node.project? narrow = some part →
    ∃ whole, node.project? wide = some whole ∧ part.ExcerptOf whole

theorem project?_name_mono {text other : String}
    (names : (other == "*" || text != "*" && sameName other text) = true)
    (further : takesWhole wide = true ∨ takesWhole narrow = false ∧ LeavesLess narrow wide)
    (distinct : node.hasDistinctKeys = true) (h : node.project? (.name text :: narrow) = some part) :
    ∃ whole, node.project? (.name other :: wide) = some whole ∧ part.ExcerptOf whole := by
  obtain ⟨ms, listed⟩ := allMembers?_of_project? h
  rw [project?_name_of_allMembers listed] at h ⊢
  refine selectedMembers?_mono (nodup_member_keys distinct listed)
    (fun m pair kept => (Member.project?_eq_some kept).2.1)
    (fun m pair kept => (Member.project?_eq_some kept).2.1) ?_ h
  -- A member that the narrower filter keeps is taken whole by the wider one or entered.
  intro m member pair kept
  have inside := hasDistinctKeys_of_member distinct listed member
  obtain ⟨selects, -, kept⟩ := Member.project?_eq_some kept
  have also := Token.selectsName_of_wider names selects
  by_cases whole : takesWhole wide = true
  · refine ⟨m.value, Member.project?_whole also whole, ?_⟩
    rcases kept with ⟨-, copied⟩ | ⟨-, -, found⟩
    · rw [copied]
      exact .refl inside
    · exact project?_excerptOf inside found
  · -- Then the narrower one enters it as well, and both go on below.
    obtain ⟨partly, less⟩ := further.resolve_left whole
    rcases kept with ⟨copied, -⟩ | ⟨-, isOpen, found⟩
    · rw [partly] at copied
      cases copied
    · obtain ⟨copy, projected, below⟩ := less inside found
      exact ⟨copy, Member.project?_inside also (by simpa using whole) isOpen projected, below⟩

theorem project?_index_mono {value other : Int}
    (indexes : (other == Token.everyIndex || value == other) = true)
    (further : wide.isEmpty = true ∨ narrow.isEmpty = false ∧ LeavesLess narrow wide)
    (distinct : node.hasDistinctKeys = true)
    (h : node.project? (.index value :: narrow) = some part) :
    ∃ whole, node.project? (.index other :: wide) = some whole ∧ part.ExcerptOf whole := by
  have own := project?_excerptOf distinct h
  obtain ⟨⟨element, slots⟩, opened⟩ := slots?_of_project? h
  rw [project?_index_eq opened] at h ⊢
  obtain ⟨chosen, selected, rfl⟩ := Option.map_eq_some_iff.mp h
  obtain ⟨all, selectedAll, among⟩ := selectedIndex?_of_wider indexes selected
  rw [selectedAll, Option.map_some]
  refine ⟨_, rfl, ?_⟩
  by_cases copied : (node.isFlat || all.isNone && wide.isEmpty) = true
  · -- The wider filter copies the list, so what is left of it is an excerpt in any case.
    rw [if_pos copied]
    exact own
  · have apart : node.isFlat = false := by simp_all
    have ends : all.isNone = true → wide.isEmpty = false := by simp_all
    -- The narrower filter goes on where the wider one does, so it copies nothing whole.
    have partly : (node.isFlat || chosen.isNone && narrow.isEmpty) = false := by
      rw [apart, Bool.false_or, Bool.and_eq_false_iff]
      cases chosen with
      | some i => exact .inl rfl
      | none =>
        have goesOn := ends (by rcases among with rfl | rfl <;> rfl)
        exact .inr (further.resolve_left (by simp [goesOn])).1
    rw [if_neg copied]
    simp only [partly, Bool.false_eq_true, if_false]
    refine (excerptOf_list_of_slots rfl).mpr (forall₂_mapIdx fun i slot here => ?_)
    have inside := hasDistinctKeys_of_slots distinct opened (List.mem_of_getElem? here)
    refine keepSlot_mono inside (isEmptyContainer_placeOf node slot) (fun single => ?_) ?_
    · rcases among with rfl | rfl
      · rfl
      · exact single
    · exact further.imp_right fun goesOn => ⟨goesOn.1, fun part found => goesOn.2 inside found⟩

/-- **A narrower filter has the smaller projection**, whatever the lists of the model hold. -/
theorem project?_mono (narrower : Token.isNarrower narrow wide = true) : LeavesLess narrow wide := by
  induction narrow generalizing wide with
  | nil => simp [Token.isNarrower] at narrower
  | cons token narrow ih =>
    intro node part distinct h
    -- As far as the wider filter goes, the two have names in the same places.
    cases token with
    | name text =>
      cases wide with
      | nil => simp [Token.isNarrower] at narrower
      | cons other wide =>
        cases other with
        | index value => simp [Token.isNarrower] at narrower
        | name other =>
          simp only [Token.isNarrower, Bool.and_eq_true, Bool.or_eq_true,
            Bool.not_eq_true'] at narrower
          refine project?_name_mono (by simpa using narrower.1) ?_ distinct h
          exact narrower.2.imp_right fun goesOn => ⟨goesOn.1, ih goesOn.2⟩
    | index value =>
      cases wide with
      | nil => simp [Token.isNarrower] at narrower
      | cons other wide =>
        cases other with
        | name other => simp [Token.isNarrower] at narrower
        | index other =>
          simp only [Token.isNarrower, Bool.and_eq_true, Bool.or_eq_true,
            Bool.not_eq_true'] at narrower
          refine project?_index_mono (by simpa using narrower.1) ?_ distinct h
          exact narrower.2.imp_right fun goesOn => ⟨goesOn.1, ih goesOn.2⟩

end Node

end ModelFeed
