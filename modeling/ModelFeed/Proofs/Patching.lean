import ModelFeed.Feed.SharedModel
import ModelFeed.Proofs.FilterGrammar
import ModelFeed.Proofs.Joining
import ModelFeed.Proofs.Reaching
import ModelFeed.Subscription
/-!
# Patches deliver every change

A changed path becomes a filter, the filter a projection, and the projections of a batch are folded
into one patch. Each projection holds the changed value at its path, and all of them are parts of
the model. So the patch lies between any one of them and the model, and what both of these hold at a
path it holds too.
-/

namespace ModelFeed

namespace Node

/-- Whether every property holds a value of its kind. -/
def keepsPropertyKinds : Node → Bool
  | .structured schema values =>
    (schema.properties.zip values).all fun field => field.1.kind.accepts field.2
  | _ => true

/-- The conditions on a model under which patches are exact. -/
structure Tidy (node : Node) : Prop where
  /-- Names are told apart whatever their case. -/
  names : node.hasDistinctNames = true
  /-- Properties hold values of their kinds. -/
  properties : node.everywhere keepsPropertyKinds = true
  /-- Lists of lists are empty, and lists of structured nodes hold no scalars and no lists. -/
  elements : node.everywhere keepsElementKind = true

theorem Tidy.regular {node : Node} (tidy : node.Tidy) : node.Regular :=
  ⟨hasDistinctKeys_of_names tidy.names, tidy.elements⟩

theorem Tidy.of_child {node child : Node} {step : Step} (tidy : node.Tidy)
    (found : node.child? step = some child) : child.Tidy :=
  ⟨everywhere_of_child tidy.names found, everywhere_of_child tidy.properties found,
    everywhere_of_child tidy.elements found⟩

/-! ### The projection onto a path -/

/-- A member whose value is no scalar may be entered by a filter. -/
theorem isOpen_of_member {node : Node} {ms : List Member} {m : Member}
    (kinds : node.everywhere keepsPropertyKinds = true) (listed : node.members? = some ms)
    (member : m ∈ ms) (inner : m.value.isScalar = false) : m.isOpen = true := by
  have here : node.keepsPropertyKinds = true := here_of_everywhere kinds
  cases node with
  | structured schema values =>
    cases listed
    obtain ⟨⟨property, value⟩, field, rfl⟩ := List.mem_map.mp member
    have accepted : property.kind.accepts value = true := List.all_eq_true.mp here _ field
    have inner : value.isScalar = false := inner
    cases kind : property.kind with
    | scalar =>
      rw [kind] at accepted
      cases value <;> simp_all [PropertyKind.accepts, isScalar]
    | _ => simp [Member.ofField, kind, PropertyKind.isDescendable]
  | map entries =>
    cases listed
    obtain ⟨entry, -, rfl⟩ := List.mem_map.mp member
    rfl
  | _ => cases listed

theorem isScalar_of_get? {node value : Node} {path : Path} (more : path ≠ [])
    (h : node.get? path = some value) : node.isScalar = false := by
  cases path with
  | nil => exact absurd rfl more
  | cons step path => cases node <;> first | rfl | cases h

/-- What a projection keeps of a member is behind the name of the member. -/
theorem exists_project?_of_member {root part : Node} {ms : List Member} {m : Member} {name : String}
    {rest : List Token} (names : root.hasDistinctNames = true) (listed : root.members? = some ms)
    (member : m ∈ ms) (named : m.named name = true)
    (kept : m.project? (.name name) rest = some (m.key, part)) :
    ∃ projected, root.project? (.name name :: rest) = some projected ∧
      projected.member? name = some part := by
  have opened := opened?_of_members listed
  have distinct := namesDistinct_of_opened names listed opened
  have keys : ∀ m pair, Member.project? (.name name) rest m = some pair → pair.1 = m.key :=
    fun m pair selected => (Member.project?_eq_some selected).2.1
  have once := Entries.nodup_keys_filterMap keys
    (nodup_member_keys (hasDistinctKeys_of_names names) (allMembers?_of_members listed))
  have held : (m.key, part) ∈ ms.filterMap (Member.project? (.name name) rest) :=
    List.mem_filterMap.mpr ⟨m, member, kept⟩
  have within : Entries.keys (ms.filterMap (Member.project? (.name name) rest)) ⊆
      Entries.keys (ms.map fun m => (m.key, m.value)) := by
    intro key listedKey
    obtain ⟨pair, selected, rfl⟩ := List.mem_map.mp listedKey
    obtain ⟨other, also, found⟩ := List.mem_filterMap.mp selected
    rw [keys other pair found]
    exact Entries.mem_keys_of_mem (List.mem_map.mpr ⟨other, also, rfl⟩)
  refine ⟨.map (ms.filterMap (Member.project? (.name name) rest)), ?_, ?_⟩
  · rw [project?_name listed, selectedMembers?_of_mem once held]
  · exact Entries.lookup?_of_get? (distinct.of_subset once within) named
      (Entries.get?_of_mem once held)

theorem Path.tokens_eq_nil_iff {path : Path} : path.tokens = [] ↔ path = [] := by
  cases path with
  | nil => simp
  | cons step path => cases step <;> simp [Path.tokens_cons, Step.tokens]

/-- What the projection onto a path leaves of the item that the path goes to. -/
theorem exists_project?_of_item {element : ElementKind} {items : List Node} {child value : Node}
    {i : Nat} {path : Path} (found : items[i]? = some child) (inside : child.get? path = some value)
    (below : path ≠ [] → ∃ part, child.project? path.tokens = some part ∧
      part.get? path = some value) :
    ∃ part slot, (list element items).project? (.index i :: path.tokens) = some part ∧
      part.item? i = some slot ∧ slot.get? path = some value := by
  have range : i < items.length := (List.getElem?_eq_some_iff.mp found).1
  rw [project?_index, selectedIndex?_natCast range, Option.map_some]
  split
  next => exact ⟨_, child, rfl, found, inside⟩
  next =>
    refine ⟨_, projectItem element (some i) path.tokens i child, rfl, ?_, ?_⟩
    · simp [item?, items?, List.getElem?_mapIdx, found]
    · unfold projectItem
      by_cases null : child.isNull = true
      · -- Null stays null, and no path leads on from it.
        rw [if_pos null]
        cases child with
        | null => exact inside
        | _ => cases null
      · by_cases ended : path = []
        · subst ended
          simpa [null] using inside
        · obtain ⟨part, projected, reached⟩ := below ended
          have more : path.tokens.isEmpty = false := by
            simpa [Path.tokens_eq_nil_iff] using ended
          simpa [null, more, projected] using reached

section

variable {root child value : Node} {ms : List Member} {m : Member} {name : String} {path : Path}

/-- Through a property or an entry the projection onto a path reaches what is below it. -/
theorem exists_project?_below_member (tidy : root.Tidy) (listed : root.members? = some ms)
    (member : m ∈ ms) (named : m.named name = true) (inside : m.value.get? path = some value)
    (below : path ≠ [] → ∃ part, m.value.project? path.tokens = some part ∧
      part.get? path = some value) :
    ∃ part, root.project? (Path.tokens (.member name :: path)) = some part ∧
      part.get? (.member name :: path) = some value := by
  have selects : (Token.name name).selectsName m.key = true := by simp [sameName_symm named]
  have kept : ∃ part, m.project? (.name name) path.tokens = some (m.key, part) ∧
      part.get? path = some value := by
    by_cases whole : takesWhole path.tokens = true
    · -- The member is taken whole at the end of the path, or early, by a name that reads `**`.
      exact ⟨m.value, Member.project?_whole selects whole, inside⟩
    · have more : path ≠ [] := by
        rintro rfl
        exact whole rfl
      obtain ⟨part, projected, there⟩ := below more
      have isOpen := isOpen_of_member tidy.properties listed member (isScalar_of_get? more inside)
      exact ⟨part, Member.project?_inside selects (by simpa using whole) isOpen projected, there⟩
  obtain ⟨part, kept, there⟩ := kept
  obtain ⟨projected, found, behind⟩ := exists_project?_of_member tidy.names listed member named kept
  refine ⟨projected, found, ?_⟩
  rw [get?_cons, child?, Step.name, behind, Option.bind_some]
  exact there

/-- Through an item of a list it does as well, if the index fits a token. -/
theorem exists_project?_below_item {element : ElementKind} {items : List Node} {i : Nat}
    (tidy : root.Tidy) (listed : root.members? = some ms) (member : m ∈ ms)
    (named : m.named name = true) (holds : m.value = .list element items)
    (small : i ≤ Token.maxIndex) (found : items[i]? = some child)
    (inside : child.get? path = some value)
    (below : path ≠ [] → ∃ part, child.project? path.tokens = some part ∧
      part.get? path = some value) :
    ∃ part, root.project? (Path.tokens (.item name i :: path)) = some part ∧
      part.get? (.item name i :: path) = some value := by
  obtain ⟨part, slot, projected, at_, there⟩ := exists_project?_of_item found inside below
  have selects : (Token.name name).selectsName m.key = true := by simp [sameName_symm named]
  have isOpen := isOpen_of_member tidy.properties listed member (by rw [holds]; rfl)
  have kept : m.project? (.name name) (.index i :: path.tokens) = some (m.key, part) := by
    rw [← holds] at projected
    exact Member.project?_inside selects (takesWhole_index _ _) isOpen projected
  obtain ⟨projected, found, behind⟩ := exists_project?_of_member tidy.names listed member named kept
  refine ⟨projected, ?_, ?_⟩
  · rw [Path.tokens_cons, Step.tokens, Nat.min_eq_left small]
    exact found
  · rw [get?_cons, child?, Step.name, behind, Option.bind_some, Option.bind_eq_some_iff]
    exact ⟨slot, at_, there⟩

end

/-- **The projection onto a path holds what is at the path.** That a name stands for many members,
as `*` does, only makes it hold more. -/
theorem exists_project?_of_get? {root value : Node} {path : Path} (tidy : root.Tidy)
    (nonempty : path ≠ []) (small : ∀ list i, Step.item list i ∈ path → i ≤ Token.maxIndex)
    (held : root.get? path = some value) :
    ∃ part, root.project? path.tokens = some part ∧ part.get? path = some value := by
  induction path generalizing root with
  | nil => exact absurd rfl nonempty
  | cons step path ih =>
    rw [get?_cons] at held
    obtain ⟨child, stepped, inside⟩ := Option.bind_eq_some_iff.mp held
    obtain ⟨below, reached, entered⟩ := Option.bind_eq_some_iff.mp stepped
    obtain ⟨ms, m, listed, member, named, rfl⟩ := exists_member_of_member? reached
    -- What the rest of the path needs; there may be no rest.
    have later : path ≠ [] → ∃ part, child.project? (Path.tokens path) = some part ∧
        part.get? path = some value := fun more =>
      ih (tidy.of_child stepped) more (fun list i later => small list i (List.mem_cons_of_mem _ later))
        inside
    cases step with
    | member name =>
      cases entered
      exact exists_project?_below_member tidy listed member named inside later
    | item list i =>
      cases holds : m.value with
      | list element items =>
        rw [holds] at entered
        exact exists_project?_below_item tidy listed member named holds
          (small list i List.mem_cons_self) entered inside later
      | _ =>
        rw [holds] at entered
        cases entered

end Node

/-! ### Filters from texts and paths -/

theorem Token.InOrder.indexesFollowNames {tokens : List Token} (ordered : InOrder tokens) :
    Token.indexesFollowNames false tokens = true := by
  induction ordered with
  | nil => rfl
  | @name text rest later ih =>
    have after : Token.indexesFollowNames true rest = true := indexesFollowNames_mono ih
    exact after
  | indexed bounded later ih => exact ih

namespace Filter

/-- Whether a filter comes from a text. There is no other way to make one. -/
def IsRead (filter : Filter) : Prop :=
  ∃ place text, parse place text = .ok filter

theorem IsRead.placed {filter : Filter} (h : filter.IsRead) :
    Token.indexesFollowNames false filter.tokens = true := by
  obtain ⟨place, text, parsed⟩ := h
  obtain ⟨-, read⟩ := parse_eq_ok_iff.mp parsed
  rw [Token.parse_eq_ofSegments, Token.ofSegments_eq_ok_iff] at read
  obtain ⟨groups, read, flat⟩ := read
  rw [flat]
  exact (Token.inOrder_flatten read).indexesFollowNames

end Filter

theorem Path.tokens_placed (path : Path) : Token.indexesFollowNames false path.tokens = true := by
  induction path with
  | nil => rfl
  | cons step path ih =>
    cases step with
    | member name =>
      have later : Token.indexesFollowNames true (tokens path) = true :=
        Token.indexesFollowNames_mono ih
      exact later
    | item list i => exact ih

/-! ### Contributions -/

namespace Subscription

variable {s : Subscription} {root whole part : Node} {changes : List Path} {path : Path}

theorem isMapPart_of_project? {tokens : List Token}
    (placed : Token.indexesFollowNames false tokens = true) (regular : root.Regular)
    (h : root.project? tokens = some part) : Node.IsMapPart root part := by
  obtain ⟨below, named⟩ := Node.project?_partOf placed regular h
  exact ⟨named rfl, below⟩

theorem isMapPart_of_remains? (regular : root.Regular) (h : root.remains? path = some part) :
    Node.IsMapPart root part := by
  obtain ⟨source, found⟩ := Node.exists_projected_of_remains? h
  exact isMapPart_of_project? source.tokens_placed regular found

/-- Every filter has its index tokens after names. -/
def IsPlaced (s : Subscription) : Prop :=
  ∀ filter ∈ s.filters, Token.indexesFollowNames false filter.tokens = true

theorem isPlaced_of_read (read : ∀ filter ∈ s.filters, filter.IsRead) : s.IsPlaced :=
  fun filter listed => (read filter listed).placed

/-- What changes below a replaced parent contribute is put together from projections, and has each
of them in it. -/
theorem below?_joins (filters : ∀ filter ∈ s.filters, path.isAbove filter.tokens = true → ∀ part,
      root.project? filter.tokens = some part → Node.IsMapPart whole part)
    (h : s.below? root path = some part) :
    Node.IsMapPart whole part ∧ ∀ filter ∈ s.filters, path.isAbove filter.tokens = true →
      ∀ piece, root.project? filter.tokens = some piece → piece.PartOf part := by
  obtain ⟨first, pieces, rfl, made⟩ := below?_eq_some h
  have each : ∀ piece ∈ first :: pieces, Node.IsMapPart whole piece := by
    intro piece member
    obtain ⟨filter, listed, above, found⟩ := (made piece).mp member
    exact filters filter listed above piece found
  obtain ⟨joined, held⟩ := Node.IsMapPart.foldl (each first List.mem_cons_self)
    fun piece member => each piece (List.mem_cons_of_mem _ member)
  exact ⟨joined, fun filter listed above piece found =>
    held piece ((made piece).mpr ⟨filter, listed, above, found⟩)⟩

theorem isMapPart_of_below? (filters : ∀ filter ∈ s.filters, ∀ part,
      root.project? filter.tokens = some part → Node.IsMapPart whole part)
    (h : s.below? root path = some part) : Node.IsMapPart whole part :=
  (below?_joins (fun filter listed _ => filters filter listed) h).1

/-- Something is sent for a replaced parent where some filter selects something below it. -/
theorem below?_isSome_iff : (s.below? root path).isSome = true ↔
    ∃ filter ∈ s.filters, path.isAbove filter.tokens = true ∧
      (root.project? filter.tokens).isSome = true := by
  rw [Option.isSome_iff_exists]
  constructor
  · rintro ⟨part, h⟩
    obtain ⟨first, pieces, -, made⟩ := below?_eq_some h
    obtain ⟨filter, listed, above, found⟩ := (made first).mp List.mem_cons_self
    exact ⟨filter, listed, above, Option.isSome_of_mem found⟩
  · rintro ⟨filter, listed, above, selects⟩
    obtain ⟨piece, found⟩ := Option.isSome_iff_exists.mp selects
    have held : piece ∈ s.filters.filterMap (fun filter =>
        if path.isAbove filter.tokens then root.project? filter.tokens else none) :=
      List.mem_filterMap.mpr ⟨filter, listed, by rw [if_pos above, found]⟩
    simp only [below?]
    split
    next empty =>
      rw [empty] at held
      cases held
    next => exact ⟨_, rfl⟩

/-- Whether a change is reported from its path. -/
def covers (s : Subscription) (path : Path) : Bool :=
  s.filters.isEmpty || s.filters.any fun filter => path.isWithin filter.tokens

theorem contribution?_of_covers (h : s.covers path = true) :
    s.contribution? root path = root.remains? path :=
  if_pos h

theorem contribution?_of_not_covers (h : s.covers path = false) :
    s.contribution? root path = s.below? root path :=
  if_neg (Bool.eq_false_iff.mp h)

theorem isMapPart_of_contribution? (regular : root.Regular) (placed : s.IsPlaced)
    (h : s.contribution? root path = some part) : Node.IsMapPart root part := by
  unfold contribution? at h
  split at h
  next => exact isMapPart_of_remains? regular h
  next =>
    refine isMapPart_of_below? (fun filter listed piece found => ?_) h
    exact isMapPart_of_project? (placed filter listed) regular found

/-- A view of parts is a part and holds the projection onto every filter. -/
theorem view_joins_of_parts {named : Entries Node} (filtered : s.filters ≠ [])
    (opened : whole.opened? = some named) (parts : ∀ filter ∈ s.filters, ∀ part,
      root.project? filter.tokens = some part → Node.IsMapPart whole part) :
    Node.IsMapPart whole (s.view root) ∧
      ∀ filter ∈ s.filters, ∀ part, root.project? filter.tokens = some part →
        part.PartOf (s.view root) := by
  have start : Node.IsMapPart whole .emptyMap := ⟨⟨[], rfl⟩, Node.emptyMap_partOf opened⟩
  have each : ∀ piece ∈ s.filters.filterMap (fun filter => root.project? filter.tokens),
      Node.IsMapPart whole piece := by
    intro piece member
    obtain ⟨filter, listed, found⟩ := List.mem_filterMap.mp member
    exact parts filter listed piece found
  obtain ⟨below, held⟩ := start.foldl each
  have nonempty : s.filters.isEmpty = false := by simpa using filtered
  rw [view, if_neg (by simp [nonempty])]
  refine ⟨below, fun filter listed part found => ?_⟩
  exact held part (List.mem_cons_of_mem _ (List.mem_filterMap.mpr ⟨filter, listed, found⟩))

/-- A patch of parts is a part and holds what every change contributes. -/
theorem patch_joins {named : Entries Node} (opened : whole.opened? = some named)
    (parts : ∀ path ∈ changes, ∀ part, s.contribution? root path = some part →
      Node.IsMapPart whole part) :
    Node.IsMapPart whole (s.patch root changes) ∧
      ∀ path ∈ changes, ∀ part, s.contribution? root path = some part →
        part.PartOf (s.patch root changes) := by
  have start : Node.IsMapPart whole .emptyMap := ⟨⟨[], rfl⟩, Node.emptyMap_partOf opened⟩
  have each : ∀ piece ∈ changes.filterMap (s.contribution? root),
      Node.IsMapPart whole piece := by
    intro piece member
    obtain ⟨path, changed, found⟩ := List.mem_filterMap.mp member
    exact parts path changed piece found
  obtain ⟨below, held⟩ := start.foldl each
  refine ⟨below, fun path member part found => ?_⟩
  exact held part (List.mem_cons_of_mem _ (List.mem_filterMap.mpr ⟨path, member, found⟩))

/-- **No change of a batch is lost.** If a filter covers the path of a change, or there are no
filters, then the patch for the batch holds at that path what the model holds there, whatever else
changed. -/
theorem patch_delivers_change (tidy : root.Tidy) (patches : s.mode = .patch)
    (read : ∀ filter ∈ s.filters, filter.IsRead) (changed : path ∈ changes) (nonempty : path ≠ [])
    (selected : s.filters = [] ∨ ∃ filter ∈ s.filters, path.isWithin filter.tokens = true)
    (small : ∀ list i, Step.item list i ∈ path → i ≤ Token.maxIndex) {value : Node}
    (held : root.get? path = some value) :
    ∃ patch found, s.update? root changes = some patch ∧ patch.get? path = some found ∧
      value.same found = true := by
  obtain ⟨part, projected, reached⟩ := Node.exists_project?_of_get? tidy nonempty small held
  have contributes : s.contribution? root path = some part := by
    have covered : (s.filters.isEmpty ||
        s.filters.any fun filter => path.isWithin filter.tokens) = true := by
      simpa using selected
    rw [contribution?, if_pos covered, Node.remains?, projected, Option.orElse_some]
  obtain ⟨step, rest, rfl⟩ := List.exists_cons_of_ne_nil nonempty
  have opened : ∃ named, root.opened? = some named := by
    rw [Node.get?_cons] at held
    obtain ⟨child, stepped, -⟩ := Option.bind_eq_some_iff.mp held
    obtain ⟨below, reached, -⟩ := Option.bind_eq_some_iff.mp stepped
    obtain ⟨-, named, -, -, opened, -⟩ := Node.get?_of_member? reached
    exact ⟨named, opened⟩
  obtain ⟨named, opened⟩ := opened
  -- The patch lies between the projection onto the path and the model.
  obtain ⟨⟨shape, below⟩, holds⟩ := patch_joins opened fun path _ part found =>
    isMapPart_of_contribution? tidy.regular (isPlaced_of_read read) found
  obtain ⟨found, there, same⟩ := Node.get?_between
    (.inl ⟨holds _ changed part contributes, below⟩) tidy.names reached held
  refine ⟨s.patch root changes, found, ?_, there, same⟩
  -- An empty patch would not be sent, but this one holds something at the path.
  have full : (s.patch root changes).isEmptyContainer = false := by
    obtain ⟨entries, patched⟩ := shape
    rw [patched] at there ⊢
    cases entries with
    | nil => cases there
    | cons entry entries => rfl
  simp [update?, patches, full]

/-- A machine gets two axes and one of them a letter, and a variable with the name of a wildcard. -/
def letterWrites : List Mutation :=
  [.set [.member "move", .member "axes"] (Machine.axis.newList 2), .setGlobal "*" (.bool true),
    .set [.member "move", .item "axes" 1, .member "letter"] (.string "Y")]

theorem patch_delivers_letter :
    let session := (WriteSession.applyAll { store := Store.blank } letterWrites).1
    let s : Subscription := ⟨.patch, [⟨"move.axes[*].letter",
      [.name "move", .name "axes", .index (-1), .name "letter"]⟩]⟩
    let path : Path := [.member "move", .item "axes" 1, .member "letter"]
    session.store.root.Tidy ∧ (∀ filter ∈ s.filters, filter.IsRead) ∧ path ∈ session.changes ∧
      (∃ filter ∈ s.filters, path.isWithin filter.tokens = true) ∧
      session.store.root.get? path = some (.string "Y") ∧
      ∃ patch found, s.update? session.store.root session.changes = some patch ∧
        patch.get? path = some found ∧ Node.same (.string "Y") found = true := by
  intro session s path
  have tidy : session.store.root.Tidy := ⟨by decide +kernel, by decide +kernel, by decide +kernel⟩
  have read : ∀ filter ∈ s.filters, filter.IsRead := by
    intro filter listed
    obtain rfl := List.mem_singleton.mp listed
    exact ⟨.path, "move.axes[*].letter", by rfl⟩
  have changed : path ∈ session.changes := by decide +kernel
  have selected : ∃ filter ∈ s.filters, path.isWithin filter.tokens = true := by decide +kernel
  have held : session.store.root.get? path = some (.string "Y") := by rfl
  have small : ∀ list i, Step.item list i ∈ path → i ≤ Token.maxIndex := by
    intro list i inside
    obtain ⟨-, rfl⟩ : list = "axes" ∧ i = 1 := by simpa [path] using inside
    decide
  exact ⟨tidy, read, changed, selected, held, patch_delivers_change tidy rfl read changed
    (by decide) (.inr selected) small held⟩

end Subscription

end ModelFeed
