import ModelFeed.Proofs.Excerpts
import ModelFeed.Proofs.Patching
/-!
# Order and repetition do not count

What a client gets is the least part of the model that has certain parts in it: the projections onto
its filters, or what the changes of a batch contribute. A least part does not depend on the order in
which it is put together, nor on how often a part comes up. So of two subscriptions with the same
filters, and of two batches of the same changes, each gets a part of what the other gets, and what
are parts of one another are equal up to the order of map entries.
-/

namespace ModelFeed

theorem any_eq_of_mem_iff {α : Type} {p : α → Bool} {as bs : List α} (same : ∀ a, a ∈ as ↔ a ∈ bs) :
    as.any p = bs.any p := by
  rw [Bool.eq_iff_iff, List.any_eq_true, List.any_eq_true]
  constructor
  · rintro ⟨a, held, holds⟩
    exact ⟨a, (same a).mp held, holds⟩
  · rintro ⟨b, held, holds⟩
    exact ⟨b, (same b).mpr held, holds⟩

theorem isEmpty_eq_of_mem_iff {α : Type} {as bs : List α} (same : ∀ a, a ∈ as ↔ a ∈ bs) :
    as.isEmpty = bs.isEmpty := by
  rw [Bool.eq_iff_iff, List.isEmpty_iff, List.isEmpty_iff, List.eq_nil_iff_forall_not_mem,
    List.eq_nil_iff_forall_not_mem]
  simp only [same]

theorem isEmpty_eq_of_length_eq {α β : Type} {as : List α} {bs : List β}
    (aligned : as.length = bs.length) : as.isEmpty = bs.isEmpty := by
  cases as <;> cases bs <;> simp_all

theorem Node.isEmptyContainer_eq_of_same {a b : Node} (h : a.same b = true) :
    a.isEmptyContainer = b.isEmptyContainer := by
  cases a with
  | map as =>
    cases b with
    | map bs =>
      simp only [Node.same, Bool.and_eq_true, beq_iff_eq] at h
      exact isEmpty_eq_of_length_eq h.1
    | _ => cases h
  | list e as =>
    cases b with
    | list f bs =>
      simp only [Node.same, Bool.and_eq_true, sameItems_iff] at h
      exact isEmpty_eq_of_length_eq h.2.length_eq
    | _ => cases h
  | _ => cases b <;> first | rfl | cases h

namespace Subscription

variable {s t : Subscription} {root part : Node} {changes others : List Path} {path : Path}

/-- A model of which a part can be sent has members. -/
theorem exists_opened_of_isMapPart (h : Node.IsMapPart root part) :
    ∃ named, root.opened? = some named := by
  obtain ⟨⟨entries, rfl⟩, below⟩ := h
  obtain ⟨-, named, opened, -⟩ := Node.partOf_map.mp below
  exact ⟨named, opened⟩

/-! ### What one gets, the other gets -/

section

variable (filters : ∀ filter, filter ∈ s.filters ↔ filter ∈ t.filters)
include filters

theorem covers_eq (path : Path) : s.covers path = t.covers path := by
  rw [covers, covers, isEmpty_eq_of_mem_iff filters, any_eq_of_mem_iff filters]

theorem isAffected_eq (path : Path) : s.isAffected path = t.isAffected path := by
  rw [isAffected, isAffected, isEmpty_eq_of_mem_iff filters, any_eq_of_mem_iff filters]

theorem IsPlaced.of_same (placed : t.IsPlaced) : s.IsPlaced :=
  fun filter listed => placed filter ((filters filter).mp listed)

theorem below?_mono (regular : root.Regular) (placed : t.IsPlaced)
    (h : s.below? root path = some part) :
    ∃ other, t.below? root path = some other ∧ part.PartOf other := by
  -- Something is below for one of them, so for the other one too.
  obtain ⟨filter, listed, above, projected⟩ :=
    below?_isSome_iff.mp (Option.isSome_iff_exists.mpr ⟨part, h⟩)
  obtain ⟨other, found⟩ := Option.isSome_iff_exists.mp
    (below?_isSome_iff.mpr ⟨filter, (filters filter).mp listed, above, projected⟩)
  have parts : ∀ filter ∈ t.filters, path.isAbove filter.tokens = true → ∀ piece,
      root.project? filter.tokens = some piece → Node.IsMapPart root piece :=
    fun filter listed _ _ => isMapPart_of_project? (placed filter listed) regular
  have holds := (below?_joins parts found).2
  -- What the other one sends has all these projections in it, so also what is made of them.
  have within : ∀ filter ∈ s.filters, path.isAbove filter.tokens = true → ∀ piece,
      root.project? filter.tokens = some piece → Node.IsMapPart other piece := by
    intro filter listed above piece projected
    have listed := (filters filter).mp listed
    exact ⟨(parts filter listed above piece projected).1, holds filter listed above piece projected⟩
  exact ⟨other, found, (below?_joins within h).1.2⟩

/-- With the same filters a change contributes a part of what it contributes to the other one. -/
theorem contribution?_mono (regular : root.Regular) (placed : t.IsPlaced)
    (h : s.contribution? root path = some part) :
    ∃ other, t.contribution? root path = some other ∧ part.PartOf other := by
  cases covered : s.covers path with
  | true =>
    have own := (isMapPart_of_contribution? regular (placed.of_same filters) h).2.left_refl
    rw [contribution?_of_covers covered] at h
    rw [covers_eq filters] at covered
    rw [contribution?_of_covers covered]
    exact ⟨part, h, own⟩
  | false =>
    rw [contribution?_of_not_covers covered] at h
    rw [covers_eq filters] at covered
    rw [contribution?_of_not_covers covered]
    exact below?_mono filters regular placed h

theorem view_partOf (filtered : s.filters ≠ []) {named : Entries Node}
    (opened : root.opened? = some named) (regular : root.Regular) (placed : t.IsPlaced) :
    (s.view root).PartOf (t.view root) := by
  have filteredOther : t.filters ≠ [] := by
    obtain ⟨filter, listed⟩ := List.exists_mem_of_ne_nil _ filtered
    exact List.ne_nil_of_mem ((filters filter).mp listed)
  have parts : ∀ filter ∈ t.filters, ∀ part, root.project? filter.tokens = some part →
      Node.IsMapPart root part :=
    fun filter listed _ => isMapPart_of_project? (placed filter listed) regular
  obtain ⟨⟨⟨entries, shape⟩, -⟩, holds⟩ := view_joins_of_parts filteredOther opened parts
  have shown : (t.view root).opened? = some entries := by
    rw [shape]
    rfl
  refine (view_joins_of_parts filtered shown ?_).1.2
  intro filter listed part found
  have listed := (filters filter).mp listed
  exact ⟨(parts filter listed part found).1, holds filter listed part found⟩

theorem patch_partOf {named : Entries Node} (opened : root.opened? = some named)
    (regular : root.Regular) (placed : t.IsPlaced) (within : changes ⊆ others) :
    (s.patch root changes).PartOf (t.patch root others) := by
  have parts : ∀ path ∈ others, ∀ part, t.contribution? root path = some part →
      Node.IsMapPart root part :=
    fun path _ part found => isMapPart_of_contribution? regular placed found
  obtain ⟨⟨⟨entries, shape⟩, -⟩, holds⟩ := patch_joins opened parts
  have shown : (t.patch root others).opened? = some entries := by
    rw [shape]
    rfl
  refine (patch_joins shown ?_).1.2
  intro path changed part found
  have isMap := (isMapPart_of_contribution? regular (placed.of_same filters) found).1
  obtain ⟨other, also, below⟩ := contribution?_mono filters regular placed found
  exact ⟨isMap, below.trans (holds path (within changed) other also)⟩

end

/-! ### Equal views and updates -/

theorem view_of_not_opened (filtered : s.filters ≠ []) (closed : root.opened? = none)
    (regular : root.Regular) (placed : s.IsPlaced) : s.view root = .emptyMap := by
  have none_ : s.filters.filterMap (fun filter => root.project? filter.tokens) = [] := by
    rw [List.filterMap_eq_nil_iff]
    intro filter listed
    rw [Option.eq_none_iff_forall_ne_some]
    intro part found
    obtain ⟨named, opened⟩ :=
      exists_opened_of_isMapPart (isMapPart_of_project? (placed filter listed) regular found)
    simp [closed] at opened
  have nonempty : s.filters.isEmpty = false := by simpa using filtered
  rw [view, if_neg (by simp [nonempty]), none_]
  rfl

theorem patch_of_not_opened (closed : root.opened? = none) (regular : root.Regular)
    (placed : s.IsPlaced) : s.patch root changes = .emptyMap := by
  have none_ : changes.filterMap (s.contribution? root) = [] := by
    rw [List.filterMap_eq_nil_iff]
    intro path changed
    rw [Option.eq_none_iff_forall_ne_some]
    intro part found
    obtain ⟨named, opened⟩ :=
      exists_opened_of_isMapPart (isMapPart_of_contribution? regular placed found)
    simp [closed] at opened
  rw [patch, none_]
  rfl

theorem view_same (filters : ∀ filter, filter ∈ s.filters ↔ filter ∈ t.filters)
    (regular : root.Regular) (placed : t.IsPlaced) : (s.view root).same (t.view root) = true := by
  have back : ∀ filter, filter ∈ t.filters ↔ filter ∈ s.filters := fun filter => (filters filter).symm
  have placedOwn := placed.of_same filters
  by_cases filtered : s.filters = []
  · have also : t.filters = [] := by
      rw [← List.isEmpty_iff, ← isEmpty_eq_of_mem_iff filters, filtered]
      rfl
    simp only [view, filtered, also, List.isEmpty_nil, if_true]
    exact Node.same_refl regular.distinct
  · have also : t.filters ≠ [] := by
      rwa [ne_eq, ← List.isEmpty_iff, ← isEmpty_eq_of_mem_iff filters, List.isEmpty_iff]
    cases opened : root.opened? with
    | none =>
      rw [view_of_not_opened filtered opened regular placedOwn,
        view_of_not_opened also opened regular placed]
      rfl
    | some named =>
      have below := (view_joins_of_parts filtered opened fun filter listed _ =>
        isMapPart_of_project? (placedOwn filter listed) regular).1.2
      exact Node.PartOf.same (below.hasDistinctKeys regular.distinct)
        (view_partOf filters filtered opened regular placed)
        (view_partOf back also opened regular placedOwn)

theorem patch_same (filters : ∀ filter, filter ∈ s.filters ↔ filter ∈ t.filters)
    (paths : ∀ path, path ∈ changes ↔ path ∈ others) (regular : root.Regular)
    (placed : t.IsPlaced) : (s.patch root changes).same (t.patch root others) = true := by
  have back : ∀ filter, filter ∈ t.filters ↔ filter ∈ s.filters := fun filter => (filters filter).symm
  have placedOwn := placed.of_same filters
  cases opened : root.opened? with
  | none =>
    rw [patch_of_not_opened opened regular placedOwn, patch_of_not_opened opened regular placed]
    rfl
  | some named =>
    have parts : ∀ path ∈ changes, ∀ part, s.contribution? root path = some part →
        Node.IsMapPart root part :=
      fun path _ part found => isMapPart_of_contribution? regular placedOwn found
    have below := (patch_joins opened parts).1.2
    exact Node.PartOf.same (below.hasDistinctKeys regular.distinct)
      (patch_partOf filters opened regular placed fun path => (paths path).mp)
      (patch_partOf back opened regular placedOwn fun path => (paths path).mpr)

/-- **Neither order nor repetition counts.** Subscriptions of one mode with the same filters, in any
order and however often each is given, have equal views, and for batches of the same changes, in any
order and however often each is reported, equal updates. -/
theorem sent_same (regular : root.Regular) (mode : s.mode = t.mode)
    (read : ∀ filter ∈ t.filters, filter.IsRead)
    (filters : ∀ filter, filter ∈ s.filters ↔ filter ∈ t.filters)
    (paths : ∀ path, path ∈ changes ↔ path ∈ others) :
    (s.view root).same (t.view root) = true ∧
      Option.Rel (fun a b => a.same b = true) (s.update? root changes) (t.update? root others) := by
  have placed := isPlaced_of_read read
  have views := view_same filters regular placed
  refine ⟨views, ?_⟩
  cases shape : t.mode with
  | full =>
    rw [shape] at mode
    have affected : changes.any s.isAffected = others.any t.isAffected := by
      rw [any_eq_of_mem_iff paths]
      exact congrArg others.any (funext (isAffected_eq filters))
    simp only [update?, mode, shape, affected]
    split
    next => exact .some views
    next => exact .none
  | patch =>
    rw [shape] at mode
    have patches := patch_same filters paths regular placed
    simp only [update?, mode, shape, Node.isEmptyContainer_eq_of_same patches]
    split
    next => exact .none
    next => exact .some patches

/-- Whether the letters of all axes or the second axis come first is all the same, and so is whether
the letter or the list of axes is reported first. -/
theorem letter_and_axis_sent_same :
    let root := (WriteSession.applyAll { store := Store.blank } letterWrites).1.store.root
    let letters : Filter := ⟨"move.axes[*].letter",
      [.name "move", .name "axes", .index (-1), .name "letter"]⟩
    let axis : Filter := ⟨"move/axes[1]", [.name "move", .name "axes", .index 1]⟩
    let s : Subscription := ⟨.patch, [letters, axis, letters]⟩
    let t : Subscription := ⟨.patch, [axis, letters]⟩
    let letter : Path := [.member "move", .item "axes" 1, .member "letter"]
    let axes : Path := [.member "move", .member "axes"]
    root.Regular ∧ s.mode = t.mode ∧ (∀ filter ∈ t.filters, filter.IsRead) ∧
      (∀ filter, filter ∈ s.filters ↔ filter ∈ t.filters) ∧
      (∀ path, path ∈ [letter, axes, letter] ↔ path ∈ [axes, letter]) ∧
      (s.update? root [letter, axes, letter]).isSome = true ∧
      (s.view root).same (t.view root) = true ∧
      Option.Rel (fun a b => a.same b = true) (s.update? root [letter, axes, letter])
        (t.update? root [axes, letter]) := by
  intro root letters axis s t letter axes
  have regular : root.Regular := ⟨by decide +kernel, by decide +kernel⟩
  have read : ∀ filter ∈ t.filters, filter.IsRead := by
    intro filter listed
    simp only [t, List.mem_cons, List.not_mem_nil, or_false] at listed
    rcases listed with rfl | rfl
    · exact ⟨.path, "move/axes[1]", by rfl⟩
    · exact ⟨.path, "move.axes[*].letter", by rfl⟩
  have filters : ∀ filter, filter ∈ s.filters ↔ filter ∈ t.filters := by
    intro filter
    simp only [s, t, List.mem_cons, List.not_mem_nil, or_false]
    constructor
    · rintro (rfl | rfl | rfl) <;> simp
    · rintro (rfl | rfl) <;> simp
  have paths : ∀ path, path ∈ [letter, axes, letter] ↔ path ∈ [axes, letter] := by
    intro path
    simp only [List.mem_cons, List.not_mem_nil, or_false]
    constructor
    · rintro (rfl | rfl | rfl) <;> simp
    · rintro (rfl | rfl) <;> simp
  have sent : (s.update? root [letter, axes, letter]).isSome = true := by decide +kernel
  exact ⟨regular, rfl, read, filters, paths, sent, sent_same regular rfl read filters paths⟩

end Subscription

end ModelFeed
