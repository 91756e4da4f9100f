import ModelFeed.Proofs.Joining
/-!
# Laws of merging

Where shapes conflict, a merge drops one side, and which one depends on what came first. Two laws
hold all the same. What was merged in is absorbed: merging it in once more changes nothing, whatever
the shapes. And trees of compatible shapes can be merged in any grouping. Both are equalities of
trees as they are stored, so the order of map entries counts.
-/

namespace ModelFeed.Node

/-- Whether a node has each key once, if it is a map. -/
def isKeyedMap : Node → Bool
  | .map entries => (Entries.keys entries).Nodup
  | _ => true

/-- Whether every map of a model has each key once, as maps do whose entries are inserted. -/
def hasKeyedMaps (node : Node) : Bool :=
  node.everywhere isKeyedMap

theorem hasKeyedMaps_map {entries : List (String × Node)} : (map entries).hasKeyedMaps = true ↔
    (Entries.keys entries).Nodup ∧ ∀ entry ∈ entries, entry.2.hasKeyedMaps = true := by
  rw [hasKeyedMaps, everywhere_map, isKeyedMap, decide_eq_true_eq]
  rfl

theorem hasKeyedMaps_list {element : ElementKind} {items : List Node} :
    (list element items).hasKeyedMaps = true ↔ ∀ item ∈ items, item.hasKeyedMaps = true := by
  simp [hasKeyedMaps, everywhere_list, isKeyedMap]

/-! ### Absorption -/

/-- A node that another changes nothing of when it is merged in. -/
def Absorbs (target incoming : Node) : Prop :=
  mergeValue target incoming = target

theorem mergeEntries_eq_self {target incoming : Entries Node}
    (absorbed : ∀ entry ∈ incoming, ∃ present, Entries.get? entry.1 target = some present ∧
      present.Absorbs entry.2) : mergeEntries target incoming = target := by
  induction incoming with
  | nil => exact mergeEntries_nil target
  | cons entry incoming ih =>
    obtain ⟨⟨present, found, absorbs⟩, later⟩ := List.forall_mem_cons.mp absorbed
    rw [mergeEntries_cons, found, Option.elim_some, absorbs, Entries.insert_of_get? found]
    exact ih later

theorem mergeItems_self {items : List Node} (absorbed : ∀ item ∈ items, item.Absorbs item) :
    mergeItems items items = items := by
  induction items with
  | nil => simp [mergeItems]
  | cons item items ih =>
    obtain ⟨first, rest⟩ := List.forall_mem_cons.mp absorbed
    rw [mergeItems, first, ih rest]

theorem absorbs_self {node : Node} (keyed : node.hasKeyedMaps = true) : node.Absorbs node := by
  induction node using copyInduction with
  | atomic node atomic => cases node <;> simp_all [Absorbs, mergeValue, isAtomic]
  | map entries ih =>
    obtain ⟨distinct, below⟩ := hasKeyedMaps_map.mp keyed
    rw [Absorbs, mergeValue, mergeEntries_eq_self]
    intro entry member
    exact ⟨entry.2, Entries.get?_of_mem distinct member, ih entry member (below entry member)⟩
  | list element items ih =>
    have below := hasKeyedMaps_list.mp keyed
    rw [Absorbs, mergeValue, if_pos rfl, mergeItems_self]
    exact fun item member => ih item member (below item member)

/-- A node that was kept is kept again, and one that was taken absorbs itself. -/
theorem absorbs_of_one_side {target incoming : Node} (keyed : incoming.hasKeyedMaps = true)
    (one : mergeValue target incoming = target ∨ mergeValue target incoming = incoming) :
    (mergeValue target incoming).Absorbs incoming := by
  rcases one with kept | taken
  · rw [Absorbs, kept, kept]
  · rw [taken]
    exact absorbs_self keyed

theorem mergeEntries_absorbs {entries others : Entries Node}
    (absorb : ∀ entry ∈ entries, ∀ {other : Node}, other.hasKeyedMaps = true →
      (mergeValue entry.2 other).Absorbs other) (keyed : (map others).hasKeyedMaps = true) :
    mergeEntries (mergeEntries entries others) others = mergeEntries entries others := by
  obtain ⟨distinct, below⟩ := hasKeyedMaps_map.mp keyed
  apply mergeEntries_eq_self
  intro other member
  refine ⟨_, get?_mergeEntries_of_found distinct (Entries.get?_of_mem distinct member), ?_⟩
  cases present : Entries.get? other.1 entries with
  | none => exact absorbs_self (below other member)
  | some value => exact absorb (other.1, value) (Entries.mem_of_get? present) (below other member)

theorem mergeItems_absorbs {items others : List Node}
    (absorb : ∀ item ∈ items, ∀ {other : Node}, other.hasKeyedMaps = true →
      (mergeValue item other).Absorbs other) (keyed : ∀ other ∈ others, other.hasKeyedMaps = true) :
    mergeItems (mergeItems items others) others = mergeItems items others := by
  induction items generalizing others with
  | nil => simp [mergeItems]
  | cons item items ih =>
    cases others with
    | nil => simp [mergeItems]
    | cons other others =>
      obtain ⟨first, rest⟩ := List.forall_mem_cons.mp keyed
      have here : mergeValue (mergeValue item other) other = mergeValue item other :=
        absorb item List.mem_cons_self first
      rw [mergeItems, mergeItems, here]
      rw [ih (fun later member => absorb later (List.mem_cons_of_mem _ member)) rest]

/-- Whatever a merge keeps, takes or goes into, what comes of it absorbs the incoming node. -/
theorem mergeValue_absorbs (target : Node) {incoming : Node} (keyed : incoming.hasKeyedMaps = true) :
    (mergeValue target incoming).Absorbs incoming := by
  induction target using copyInduction generalizing incoming with
  | atomic node atomic =>
    rcases mergeValue_cases node incoming with
      ⟨entries, others, rfl, rfl⟩ | ⟨element, items, kind, others, rfl, rfl⟩ | one
    · cases atomic
    · cases atomic
    · exact absorbs_of_one_side keyed one
  | map entries ih =>
    rcases mergeValue_cases (map entries) incoming with
      ⟨_, others, same, rfl⟩ | ⟨element, items, kind, others, same, rfl⟩ | one
    · rw [Absorbs, mergeValue, mergeValue, mergeEntries_absorbs ih keyed]
    · cases same
    · exact absorbs_of_one_side keyed one
  | list element items ih =>
    rcases mergeValue_cases (list element items) incoming with
      ⟨entries, others, same, rfl⟩ | ⟨_, _, kind, others, same, rfl⟩ | one
    · cases same
    · have below := hasKeyedMaps_list.mp keyed
      rw [Absorbs, mergeValue]
      -- Lists that could not be aligned cannot be aligned the second time either.
      split
      next aligned =>
        rw [mergeValue, if_pos (by rwa [length_mergeItems]), mergeItems_absorbs ih below]
      next apart => rw [mergeValue, if_neg apart]
    · exact absorbs_of_one_side keyed one

/-- Null and the empty map are skipped, all else is merged. -/
theorem merge_cases (incoming : Node) : (incoming = .null ∨ incoming = emptyMap) ∨
    ∀ target : Node, target.merge incoming = mergeValue target incoming := by
  cases incoming with
  | null => exact .inl (.inl rfl)
  | map entries =>
    cases entries with
    | nil => exact .inl (.inr rfl)
    | cons entry entries => exact .inr fun target => rfl
  | _ => exact .inr fun target => rfl

/-- **What was merged in is absorbed.** Merging a tree in again changes nothing, whatever the shapes
of the two, and merging it into itself changes nothing. -/
theorem merge_again (target : Node) {incoming : Node} (keyed : incoming.hasKeyedMaps = true) :
    (target.merge incoming).merge incoming = target.merge incoming ∧
      incoming.merge incoming = incoming := by
  rcases merge_cases incoming with (rfl | rfl) | merged
  · exact ⟨rfl, rfl⟩
  · exact ⟨rfl, rfl⟩
  · rw [merged, merged, merged]
    exact ⟨mergeValue_absorbs target keyed, absorbs_self keyed⟩

/-- A list of another length, a map against a string, a string against a map, and null against a map:
each conflict is settled in the first merge, and the second one leaves it so. -/
theorem merge_again_in_conflict :
    let target : Node := .map [("length", .list .scalar [.map [("x", .bool true)], emptyMap]),
      ("name", .map [("x", .bool true)]), ("axis", .string "X"), ("box", .map [("x", .bool true)])]
    let incoming : Node := .map [("box", .null), ("axis", .map [("y", .bool true)]),
      ("length", .list .scalar [.map [("y", .bool true)]]), ("new", emptyMap), ("name", .string "Y")]
    incoming.hasKeyedMaps = true ∧
      target.merge incoming = .map [
        ("length", .list .scalar [.map [("x", .bool true)], emptyMap]), ("name", .string "Y"),
        ("axis", .map [("y", .bool true)]), ("box", .null), ("new", emptyMap)] ∧
      (target.merge incoming).merge incoming = target.merge incoming ∧
      incoming.merge incoming = incoming := by
  intro target incoming
  have keyed : incoming.hasKeyedMaps = true := by decide
  exact ⟨keyed, by rfl, merge_again target keyed⟩

/-! ### Compatible trees -/

/-- Whether a node is captured as it stands and never in part. -/
def isVerbatim : Node → Bool
  | .structured .. | .blob _ => true
  | _ => false

mutual

/-- Whether two trees have shapes that go together: two scalars, two maps or two lists with such values
inside, or a capture and anything but a scalar. -/
def isCompatible : Node → Node → Bool
  | .map as, .map bs => entriesAreCompatible as bs
  | .list _ as, .list _ bs => itemsAreCompatible as bs
  | a, b =>
    a.isScalar && b.isScalar || a.isVerbatim && b.isVerbatim ||
      a.isVerbatim && !b.isAtomic || !a.isAtomic && b.isVerbatim

/-- Whether the values under common keys are compatible. -/
def entriesAreCompatible : List (String × Node) → Entries Node → Bool
  | [], _ => true
  | (key, a) :: as, bs =>
    (match Entries.get? key bs with
    | some b => a.isCompatible b
    | none => true) && entriesAreCompatible as bs

/-- Whether two lists are equally long and compatible slot by slot. -/
def itemsAreCompatible : List Node → List Node → Bool
  | [], [] => true
  | a :: as, b :: bs => a.isCompatible b && itemsAreCompatible as bs
  | _, _ => false

end

theorem isCompatible_map {as bs : List (String × Node)} :
    (map as).isCompatible (map bs) = true ↔
      ∀ entry ∈ as, ∀ b, Entries.get? entry.1 bs = some b → entry.2.isCompatible b = true := by
  rw [isCompatible]
  induction as with
  | nil => simp [entriesAreCompatible]
  | cons entry as ih =>
    obtain ⟨key, a⟩ := entry
    rw [entriesAreCompatible, Bool.and_eq_true, ih, List.forall_mem_cons]
    cases Entries.get? key bs <;> simp

theorem isCompatible_list {element kind : ElementKind} {as bs : List Node} :
    (list element as).isCompatible (list kind bs) = true ↔
      List.Forall₂ (fun a b => a.isCompatible b = true) as bs := by
  rw [isCompatible]
  induction as generalizing bs with
  | nil => cases bs <;> simp [itemsAreCompatible]
  | cons a as ih => cases bs <;> simp [itemsAreCompatible, ih]

variable {a b c : Node}

theorem isScalar_of_isCompatible (compatible : a.isCompatible b = true) (scalar : a.isScalar = true) :
    b.isScalar = true := by
  cases a <;> cases b <;> simp_all [isCompatible, isScalar, isVerbatim, isAtomic]

theorem isVerbatim_or_map {entries : List (String × Node)}
    (compatible : (map entries).isCompatible b = true) :
    b.isVerbatim = true ∨ ∃ others, b = map others := by
  cases b with
  | map others => exact .inr ⟨others, rfl⟩
  | _ => simp_all [isCompatible, isScalar, isVerbatim, isAtomic]

theorem isVerbatim_or_list {element : ElementKind} {items : List Node}
    (compatible : (list element items).isCompatible b = true) :
    b.isVerbatim = true ∨ ∃ kind others, b = list kind others := by
  cases b with
  | list kind others => exact .inr ⟨kind, others, rfl⟩
  | _ => simp_all [isCompatible, isScalar, isVerbatim, isAtomic]

/-- A capture stays whatever is merged into it. -/
theorem mergeValue_of_isVerbatim (verbatim : a.isVerbatim = true) (incoming : Node) :
    mergeValue a incoming = a := by
  cases a <;> simp_all [isVerbatim, mergeValue, isScalar]

/-- A capture takes the place of a map or list. -/
theorem mergeValue_capture (partial_ : a.isAtomic = false) (verbatim : b.isVerbatim = true) :
    mergeValue a b = b := by
  have atomic : b.isAtomic = true := by cases b <;> simp_all [isVerbatim, isAtomic]
  exact mergeValue_atomic partial_ atomic

theorem mergeValue_of_isScalar (scalar : a.isScalar = true) (incoming : b.isScalar = true) :
    mergeValue a b = a := by
  cases a <;> simp_all [mergeValue, isScalar]

theorem isCompatible_emptyMap {entries : List (String × Node)}
    (compatible : a.isCompatible (map entries) = true) : a.isCompatible emptyMap = true := by
  cases a with
  | map others => exact isCompatible_map.mpr (by simp)
  | _ => exact compatible

/-- Among compatible trees null and the empty map make no exception: there is nothing to merge. -/
theorem merge_of_isCompatible (compatible : a.isCompatible b = true) :
    a.merge b = mergeValue a b := by
  rcases merge_cases b with (rfl | rfl) | merged
  · rw [merge_null]
    cases a <;> simp_all [isCompatible, mergeValue, isScalar, isVerbatim, isAtomic]
  · rw [merge_emptyMap]
    cases a <;> simp_all [emptyMap, isCompatible, mergeValue, isScalar, isVerbatim, isAtomic]
  · exact merged a

/-- Three trees with keyed maps that are compatible in pairs. -/
structure PairwiseCompatible (a b c : Node) : Prop where
  keyed : a.hasKeyedMaps = true ∧ b.hasKeyedMaps = true ∧ c.hasKeyedMaps = true
  firstSecond : a.isCompatible b = true
  firstThird : a.isCompatible c = true
  secondThird : b.isCompatible c = true

theorem PairwiseCompatible.of_found {as bs cs : Entries Node} {key : String}
    (trees : PairwiseCompatible (map as) (map bs) (map cs)) (ha : Entries.get? key as = some a)
    (hb : Entries.get? key bs = some b) (hc : Entries.get? key cs = some c) :
    PairwiseCompatible a b c := by
  obtain ⟨⟨keyedA, keyedB, keyedC⟩, ab, ac, bc⟩ := trees
  have heldA := Entries.mem_of_get? ha
  have heldB := Entries.mem_of_get? hb
  constructor
  · exact ⟨(hasKeyedMaps_map.mp keyedA).2 _ heldA, (hasKeyedMaps_map.mp keyedB).2 _ heldB,
      (hasKeyedMaps_map.mp keyedC).2 _ (Entries.mem_of_get? hc)⟩
  · exact isCompatible_map.mp ab _ heldA b hb
  · exact isCompatible_map.mp ac _ heldA c hc
  · exact isCompatible_map.mp bc _ heldB c hc

theorem mergeEntries_assoc {as bs cs : Entries Node}
    (trees : PairwiseCompatible (map as) (map bs) (map cs))
    (assoc : ∀ entry ∈ as, ∀ {b c : Node}, PairwiseCompatible entry.2 b c →
      mergeValue (mergeValue entry.2 b) c = mergeValue entry.2 (mergeValue b c)) :
    mergeEntries (mergeEntries as bs) cs = mergeEntries as (mergeEntries bs cs) := by
  have distinctA := (hasKeyedMaps_map.mp trees.keyed.1).1
  have distinctB := (hasKeyedMaps_map.mp trees.keyed.2.1).1
  have distinctC := (hasKeyedMaps_map.mp trees.keyed.2.2).1
  have distinctBC := nodup_keys_mergeEntries distinctB cs
  apply Entries.ext (nodup_keys_mergeEntries (nodup_keys_mergeEntries distinctA bs) cs)
  · -- The keys of the first tree, the new ones of the second, and those of the third that are new
    -- to both.
    have third : (Entries.keys cs).filter (· ∉ Entries.keys as ++
          (Entries.keys bs).filter (· ∉ Entries.keys as)) =
        ((Entries.keys cs).filter (· ∉ Entries.keys bs)).filter (· ∉ Entries.keys as) := by
      rw [List.filter_filter]
      apply List.filter_congr
      intro key _
      by_cases inFirst : key ∈ Entries.keys as <;> simp [inFirst]
    rw [keys_mergeEntries distinctC, keys_mergeEntries distinctB, keys_mergeEntries distinctBC,
      keys_mergeEntries distinctC, List.filter_append, List.append_assoc, third]
  · intro key
    rw [get?_mergeEntries distinctC, get?_mergeEntries distinctB, get?_mergeEntries distinctBC,
      get?_mergeEntries distinctC]
    -- Only under a key of all three trees are there two merges to be exchanged.
    cases ha : Entries.get? key as with
    | none => rw [Option.merge_none_left, Option.merge_none_left]
    | some a =>
      cases hb : Entries.get? key bs with
      | none => rw [Option.merge_none_left, Option.merge_none_right]
      | some b =>
        cases hc : Entries.get? key cs with
        | none => rw [Option.merge_none_right, Option.merge_none_right]
        | some c =>
          exact congrArg some (assoc (key, a) (Entries.mem_of_get? ha) (trees.of_found ha hb hc))

theorem pairwiseCompatible_list_cons {e f g : ElementKind} {as bs cs : List Node}
    (trees : PairwiseCompatible (list e (a :: as)) (list f (b :: bs)) (list g (c :: cs))) :
    PairwiseCompatible a b c ∧ PairwiseCompatible (list e as) (list f bs) (list g cs) := by
  obtain ⟨keyed, ab, ac, bc⟩ := trees
  simp only [hasKeyedMaps_list, List.forall_mem_cons] at keyed
  simp only [isCompatible_list, List.forall₂_cons] at ab ac bc
  constructor
  · exact ⟨⟨keyed.1.1, keyed.2.1.1, keyed.2.2.1⟩, ab.1, ac.1, bc.1⟩
  · constructor
    · simp only [hasKeyedMaps_list]
      exact ⟨keyed.1.2, keyed.2.1.2, keyed.2.2.2⟩
    · exact isCompatible_list.mpr ab.2
    · exact isCompatible_list.mpr ac.2
    · exact isCompatible_list.mpr bc.2

theorem length_eq_of_isCompatible {e f : ElementKind} {as bs : List Node}
    (compatible : (list e as).isCompatible (list f bs) = true) : as.length = bs.length :=
  (isCompatible_list.mp compatible).length_eq

theorem mergeItems_assoc {e f g : ElementKind} {as bs cs : List Node}
    (trees : PairwiseCompatible (list e as) (list f bs) (list g cs))
    (assoc : ∀ item ∈ as, ∀ {b c : Node}, PairwiseCompatible item b c →
      mergeValue (mergeValue item b) c = mergeValue item (mergeValue b c)) :
    mergeItems (mergeItems as bs) cs = mergeItems as (mergeItems bs cs) := by
  induction as generalizing bs cs with
  | nil => simp [mergeItems]
  | cons a as ih =>
    obtain ⟨b, bs, rfl⟩ := List.exists_cons_of_length_eq_add_one
      (length_eq_of_isCompatible trees.firstSecond).symm
    obtain ⟨c, cs, rfl⟩ := List.exists_cons_of_length_eq_add_one
      (length_eq_of_isCompatible trees.firstThird).symm
    obtain ⟨here, rest⟩ := pairwiseCompatible_list_cons trees
    simp only [mergeItems]
    rw [assoc a List.mem_cons_self here]
    rw [ih rest fun item member => assoc item (List.mem_cons_of_mem _ member)]

theorem mergeValue_list {e f : ElementKind} {as bs : List Node} (aligned : as.length = bs.length) :
    mergeValue (list e as) (list f bs) = list e (mergeItems as bs) := by
  rw [mergeValue, if_pos aligned]

theorem mergeValue_assoc (trees : PairwiseCompatible a b c) :
    mergeValue (mergeValue a b) c = mergeValue a (mergeValue b c) := by
  induction a using copyInduction generalizing b c with
  | atomic node atomic =>
    by_cases scalar : node.isScalar = true
    · -- Of scalars the first one stays.
      have second := isScalar_of_isCompatible trees.firstSecond scalar
      have third := isScalar_of_isCompatible trees.firstThird scalar
      rw [mergeValue_of_isScalar second third, mergeValue_of_isScalar scalar second,
        mergeValue_of_isScalar scalar third]
    · have verbatim : node.isVerbatim = true := by
        cases node <;> simp_all [isScalar, isVerbatim, isAtomic]
      simp only [mergeValue_of_isVerbatim verbatim]
  | map as ih =>
    rcases isVerbatim_or_map trees.firstSecond with verbatim | ⟨bs, rfl⟩
    · -- A capture in the middle takes the place of the map, and then nothing takes its own.
      rw [mergeValue_of_isVerbatim verbatim, mergeValue_capture rfl verbatim,
        mergeValue_of_isVerbatim verbatim]
    rcases isVerbatim_or_map trees.firstThird with verbatim | ⟨cs, rfl⟩
    · -- A capture at the end takes the place of both maps, merged or not.
      rw [mergeValue, mergeValue_capture rfl verbatim, mergeValue_capture rfl verbatim,
        mergeValue_capture rfl verbatim]
    · simp only [mergeValue]
      rw [mergeEntries_assoc trees fun entry member => ih entry member]
  | list element as ih =>
    rcases isVerbatim_or_list trees.firstSecond with verbatim | ⟨kind, bs, rfl⟩
    · rw [mergeValue_of_isVerbatim verbatim, mergeValue_capture rfl verbatim,
        mergeValue_of_isVerbatim verbatim]
    rcases isVerbatim_or_list trees.firstThird with verbatim | ⟨other, cs, rfl⟩
    · rw [mergeValue, mergeValue_capture rfl verbatim, mergeValue_capture rfl verbatim,
        mergeValue_capture rfl verbatim]
    · have second := length_eq_of_isCompatible trees.firstSecond
      have third := length_eq_of_isCompatible trees.firstThird
      have last := length_eq_of_isCompatible trees.secondThird
      rw [mergeValue_list second, mergeValue_list last, mergeValue_list (by rwa [length_mergeItems]),
        mergeValue_list (by rwa [length_mergeItems])]
      rw [mergeItems_assoc trees fun item member => ih item member]

/-- What is compatible with two trees can be merged with what they are merged into. -/
theorem PairwiseCompatible.merge_mergeValue (trees : PairwiseCompatible a b c) :
    a.merge (mergeValue b c) = mergeValue a (mergeValue b c) := by
  rcases mergeValue_cases b c with
    ⟨bs, cs, rfl, rfl⟩ | ⟨kind, bs, other, cs, rfl, rfl⟩ | kept | taken
  · rw [mergeValue]
    cases mergeEntries bs cs with
    | nil => exact merge_of_isCompatible (isCompatible_emptyMap trees.firstSecond)
    | cons entry entries => rfl
  · rw [mergeValue]
    rfl
  · rw [kept]
    exact merge_of_isCompatible trees.firstSecond
  · rw [taken]
    exact merge_of_isCompatible trees.firstThird

/-- **Compatible trees can be merged in any grouping.** Three trees that are compatible in pairs give
the same tree whichever two are merged first, down to the order of map keys. -/
theorem merge_assoc_of_compatible (trees : PairwiseCompatible a b c) :
    (a.merge b).merge c = a.merge (b.merge c) := by
  rcases merge_cases c with (rfl | rfl) | merged
  · rfl
  · rfl
  · rw [merged, merged, merge_of_isCompatible trees.firstSecond, trees.merge_mergeValue,
      mergeValue_assoc trees]

/-- Three views of one model: keys in any subset of the three, lists with stand-ins, and a fragment
that one view has whole and the others in part. -/
theorem merge_assoc_of_views :
    let yes : Node := .bool true
    let a : Node := .map [("axis", .map [("x", yes)]),
      ("list", .list .scalar [emptyMap, .map [("p", yes)]]), ("box", .map [("title", .string "t")])]
    let b : Node := .map [("box", .blob (.object [("title", .string "t"), ("mode", .null)])),
      ("list", .list .scalar [.map [("q", yes)], emptyMap]), ("axis", .map [("y", yes)])]
    let c : Node := .map [("name", .string "n"), ("box", emptyMap),
      ("list", .list .scalar [emptyMap, .map [("r", yes)]]), ("axis", .map [("z", yes), ("x", yes)])]
    PairwiseCompatible a b c ∧
      (a.merge b).merge c = .map [("axis", .map [("x", yes), ("y", yes), ("z", yes)]),
        ("list", .list .scalar [.map [("q", yes)], .map [("p", yes), ("r", yes)]]),
        ("box", .blob (.object [("title", .string "t"), ("mode", .null)])),
        ("name", .string "n")] ∧
      (a.merge b).merge c = a.merge (b.merge c) := by
  intro yes a b c
  have trees : PairwiseCompatible a b c :=
    ⟨by decide, by decide, by decide, by decide⟩
  exact ⟨trees, by rfl, merge_assoc_of_compatible trees⟩

end ModelFeed.Node
