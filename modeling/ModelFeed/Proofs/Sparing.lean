import ModelFeed.Proofs.Excerpts
/-!
# What a merge costs

Of two excerpts of one model each may hold a placeholder where the other one has something. In a
merge a placeholder mostly gives way, but not always, and it matters which of the two was there
first. An empty list that was there first stays in the place of a longer one. An empty map that comes
later replaces a scalar or a list, and an empty list that comes later a scalar or a map.

`Node.spares` says that nothing of this kind happens to what another excerpt shows. Then what is
there stays, whatever it is folded together with. And the condition is exact: what is not spared is
lost.
-/

namespace ModelFeed.Node

mutual

/-- Whether a node costs another one of the same model nothing in a merge, if it is there first
(`early`) or comes later. -/
def spares (early : Bool) : (node other : Node) → Bool
  | .map entries, .map others => entriesSpare early entries others
  | .list _ items, .list _ others =>
    -- Lists of different lengths are not aligned, and the first one stays.
    if items.length = others.length then itemsSpare early items others else !early
  -- A map or a list gives way to what comes later, and to a node that is copied as it stands.
  | .map _, other => early || other.isAtomic && !other.isScalar
  | .list .., other => early || other.isAtomic && !other.isScalar
  | node, other => early || node.isScalar || !other.isScalar

def entriesSpare (early : Bool) (entries : Entries Node) : List (String × Node) → Bool
  | [] => true
  | (key, other) :: others =>
    (match Entries.get? key entries with
    | some value => value.spares early other
    | none => true) && entriesSpare early entries others

/-- An empty container in a slot shows nothing that could be lost. -/
def itemsSpare (early : Bool) : (items others : List Node) → Bool
  | item :: items, other :: others =>
    (other.isEmptyContainer || item.spares early other) && itemsSpare early items others
  | _, _ => true

end

/-- Two nodes merged, the other one being there first (`early`) or coming later. -/
def mergeBeside (early : Bool) (node other : Node) : Node :=
  if early then mergeValue other node else mergeValue node other

variable {early : Bool} {whole part kept other a b : Node}

theorem spares_map {entries others : Entries Node} (once : (Entries.keys others).Nodup) :
    (map entries).spares early (map others) = true ↔
      ∀ key value other, Entries.get? key entries = some value →
        Entries.get? key others = some other → value.spares early other = true := by
  have each : (map entries).spares early (map others) = true ↔ ∀ entry ∈ others,
      ∀ value, Entries.get? entry.1 entries = some value → value.spares early entry.2 = true := by
    rw [spares]
    clear once
    induction others with
    | nil => simp [entriesSpare]
    | cons entry others ih =>
      obtain ⟨key, other⟩ := entry
      rw [entriesSpare, Bool.and_eq_true, ih, List.forall_mem_cons]
      cases Entries.get? key entries <;> simp
  rw [each]
  constructor
  · intro spared key value other found foundOther
    exact spared (key, other) (Entries.mem_of_get? foundOther) value found
  · rintro spared ⟨key, other⟩ member value found
    exact spared key value other found (Entries.get?_of_mem once member)

/-- What spares the items of a list in its slots. -/
def SparesSlot (early : Bool) (item other : Node) : Prop :=
  other.isEmptyContainer = true ∨ item.spares early other = true

theorem itemsSpare_iff {items others : List Node} (aligned : items.length = others.length) :
    itemsSpare early items others = true ↔ List.Forall₂ (SparesSlot early) items others := by
  induction items generalizing others with
  | nil =>
    obtain rfl := List.length_eq_zero_iff.mp aligned.symm
    simp [itemsSpare]
  | cons item items ih =>
    cases others with
    | nil => cases aligned
    | cons other others =>
      have aligned : items.length = others.length := by simpa using aligned
      simp [itemsSpare, SparesSlot, ih aligned]

theorem spares_list {element kind : ElementKind} {items others : List Node} :
    (list element items).spares early (list kind others) = true ↔
      List.Forall₂ (SparesSlot early) items others ∨
        items.length ≠ others.length ∧ early = false := by
  rw [spares]
  split
  next aligned => simp [itemsSpare_iff aligned, aligned]
  next apart =>
    have unrelated : ¬List.Forall₂ (SparesSlot early) items others := fun h => apart h.length_eq
    simp [unrelated, apart]

theorem spares_of_isAtomic (atomic : part.isAtomic = true) :
    other.spares early part = (early || other.isScalar || !part.isScalar) := by
  cases other <;> cases part <;> cases early <;> first | rfl | cases atomic

/-- An empty map takes the place of nothing that has members. -/
theorem emptyMap_spares {named : Entries Node} (opened : part.opened? = some named) :
    emptyMap.spares early part = true := by
  cases part with
  | map entries =>
    rw [emptyMap, spares]
    clear opened
    induction entries with
    | nil => rfl
    | cons entry entries ih => exact ih
  | structured schema values => cases early <;> rfl
  | blob json => cases early <;> rfl
  | _ => cases opened

/-! ### One step of a merge -/

/-- Of two maps each key of the first has its value in the merged one, or what it makes with the
value of the other. -/
theorem exists_mergeBeside_map (early : Bool) {entries others : Entries Node}
    (once : (Entries.keys entries).Nodup) (onceOther : (Entries.keys others).Nodup) :
    ∃ merged, mergeBeside early (map entries) (map others) = map merged ∧
      (Entries.keys merged).Nodup ∧ ∀ key value, Entries.get? key entries = some value →
        Entries.get? key merged =
          some ((Entries.get? key others).elim value (mergeBeside early value)) := by
  cases early with
  | false =>
    refine ⟨_, mergeValue.eq_1 .., nodup_keys_mergeEntries once others, fun key value found => ?_⟩
    rw [get?_mergeEntries onceOther, found]
    cases Entries.get? key others <;> rfl
  | true =>
    refine ⟨_, mergeValue.eq_1 .., nodup_keys_mergeEntries onceOther entries,
      fun key value found => ?_⟩
    rw [get?_mergeEntries once, found]
    cases Entries.get? key others <;> rfl

def mergeItemsBeside (early : Bool) (items others : List Node) : List Node :=
  if early then mergeItems others items else mergeItems items others

@[simp] theorem mergeItemsBeside_nil : mergeItemsBeside early [] [] = [] := by
  cases early <;> simp [mergeItemsBeside, mergeItems]

@[simp] theorem mergeItemsBeside_cons {item : Node} {items others : List Node} :
    mergeItemsBeside early (item :: items) (other :: others) =
      mergeBeside early item other :: mergeItemsBeside early items others := by
  cases early <;> simp [mergeItemsBeside, mergeItems, mergeBeside]

theorem exists_mergeBeside_list (early : Bool) {element kind : ElementKind}
    {items others : List Node} (aligned : items.length = others.length) :
    ∃ shared, mergeBeside early (list element items) (list kind others) =
      list shared (mergeItemsBeside early items others) := by
  cases early with
  | false => exact ⟨element, by simp [mergeBeside, mergeItemsBeside, mergeValue, aligned]⟩
  | true => exact ⟨kind, by simp [mergeBeside, mergeItemsBeside, mergeValue, aligned]⟩

theorem mergeBeside_list_of_apart {element kind : ElementKind} {items others : List Node}
    (apart : items.length ≠ others.length) :
    mergeBeside early (list element items) (list kind others) =
      if early then list kind others else list element items := by
  cases early with
  | false => simp [mergeBeside, mergeValue, apart]
  | true => simp [mergeBeside, mergeValue, apart.symm]

theorem ExcerptOf.mergeBeside (distinct : whole.hasDistinctKeys = true) (ha : a.ExcerptOf whole)
    (hb : b.ExcerptOf whole) : (mergeBeside early a b).ExcerptOf whole := by
  cases early with
  | false => exact ha.mergeValue distinct hb
  | true => exact hb.mergeValue distinct ha

/-! ### What is spared stays -/

theorem eq_of_excerptOf_scalar (scalar : whole.isScalar = true) (h : part.ExcerptOf whole) :
    part = whole := by
  cases part with
  | map entries =>
    obtain ⟨-, named, opened, -⟩ := excerptOf_map.mp h
    cases whole <;> simp_all [opened?, isScalar]
  | list element items =>
    obtain ⟨kind, slots, opened, -⟩ := excerptOf_list.mp h
    cases whole <;> simp_all [slots?, isScalar]
  | _ => exact (excerptOf_atomic rfl).mp h

/-- What is copied as it stands stays when an excerpt is merged into it, and replaces one. -/
theorem mergeBeside_of_isAtomic (atomic : whole.isAtomic = true) (h : part.ExcerptOf whole) :
    mergeBeside early whole part = whole ∧ mergeBeside early part whole = whole := by
  have both : mergeValue whole part = whole ∧ mergeValue part whole = whole := by
    cases part with
    | map entries =>
      obtain ⟨-, named, opened, -⟩ := excerptOf_map.mp h
      cases whole <;> simp_all [mergeValue, isAtomic, isScalar, opened?]
    | list element items =>
      obtain ⟨kind, slots, opened, -⟩ := excerptOf_list.mp h
      cases whole <;> simp_all [mergeValue, isAtomic, isScalar, slots?]
    | _ =>
      obtain rfl := (excerptOf_atomic rfl).mp h
      simp [mergeValue]
  cases early with
  | false => exact both
  | true => exact both.symm

/-- An empty container that spares what is copied of a node gives way to the node. -/
theorem mergeBeside_of_spares (own : part.ExcerptOf whole) (atomic : whole.isAtomic = true)
    (beside : other.FitsSlot whole) (spared : other.spares early part = true) :
    mergeBeside early whole other = whole := by
  rcases beside with bare | below
  · cases early with
    | true => cases other <;> cases whole <;> simp_all [mergeBeside, mergeValue, isAtomic,
        isEmptyContainer]
    | false =>
      have inner : whole.isScalar = false := by
        by_contra scalar
        obtain rfl := eq_of_excerptOf_scalar (by simpa using scalar) own
        rw [spares_of_isAtomic atomic] at spared
        cases other <;> simp_all [isScalar, isEmptyContainer]
      cases other <;> cases whole <;>
        simp_all [mergeBeside, mergeValue, isAtomic, isScalar, isEmptyContainer]
  · exact (mergeBeside_of_isAtomic atomic below).1

theorem excerptOf_mergeBeside_of_isAtomic (own : part.ExcerptOf whole)
    (within : kept.ExcerptOf whole) (beside : other.FitsSlot whole)
    (spared : other.spares early part = true)
    (atomic : kept.isAtomic = true ∨ other.isAtomic = true) :
    part.ExcerptOf (mergeBeside early kept other) := by
  rcases atomic with atomic | atomic
  · obtain rfl := (excerptOf_atomic atomic).mp within
    rw [mergeBeside_of_spares own atomic beside spared]
    exact own
  · -- What is copied as it stands is no empty container.
    have below : other.ExcerptOf whole :=
      beside.resolve_left fun bare => by cases other <;> first | cases bare | cases atomic
    obtain rfl := (excerptOf_atomic atomic).mp below
    rw [(mergeBeside_of_isAtomic atomic within).2]
    exact own

/-- Whether what spares a node may be merged with anything of one model that has the node in it. -/
def SparedStays (early : Bool) (part : Node) : Prop :=
  ∀ {whole kept other : Node}, part.ExcerptOf whole → part.ExcerptOf kept → kept.ExcerptOf whole →
    other.FitsSlot whole → other.spares early part = true →
      part.ExcerptOf (mergeBeside early kept other)

theorem sparedStays_map {entries : List (String × Node)}
    (ih : ∀ entry ∈ entries, entry.2.SparedStays early) : (map entries).SparedStays early := by
  intro whole kept other own held within beside spared
  obtain ⟨once, present, openedKept, values⟩ := excerptOf_map.mp held
  cases kept with
  | map _ =>
    cases openedKept
    cases other with
    | map others =>
      obtain ⟨oncePresent, named, opened, valuesPresent⟩ := excerptOf_map.mp within
      obtain ⟨-, valuesOwn⟩ := (excerptOf_map_of_opened opened).mp own
      obtain ⟨onceOther, valuesOther⟩ := beside.values opened
      obtain ⟨merged, shape, -, made⟩ := exists_mergeBeside_map early oncePresent onceOther
      rw [shape]
      refine (excerptOf_map_of_opened rfl).mpr ⟨once, fun key x found => ?_⟩
      obtain ⟨y, there, inY⟩ := values key x found
      refine ⟨_, made key y there, ?_⟩
      cases foundOther : Entries.get? key others with
      | none => exact inY
      | some o =>
        -- All three have a copy of one value under this key.
        obtain ⟨z, inNamed, inZ⟩ := valuesOwn key x found
        obtain ⟨_, again, yInZ⟩ := valuesPresent key y there
        obtain rfl := Option.some.inj (inNamed.symm.trans again)
        obtain ⟨_, again, oInZ⟩ := valuesOther key o foundOther
        obtain rfl := Option.some.inj (inNamed.symm.trans again)
        exact ih (key, x) (Entries.mem_of_get? found) inZ inY yInZ (.inr oInZ)
          ((spares_map once).mp spared key o x foundOther found)
    | list element items =>
      -- A list that was there first gives way to a map, and one that comes later does not spare it.
      cases early with
      | false => simp [spares, isAtomic] at spared
      | true => simpa [mergeBeside, mergeValue] using held
    | _ => exact excerptOf_mergeBeside_of_isAtomic own within beside spared (.inr rfl)
  | list element items => cases openedKept
  | _ => exact excerptOf_mergeBeside_of_isAtomic own within beside spared (.inl rfl)

theorem sparedStays_items {items present others slots : List Node}
    (ih : ∀ item ∈ items, item.SparedStays early)
    (own : List.Forall₂ FitsSlot items slots) (held : List.Forall₂ FitsSlot items present)
    (within : List.Forall₂ FitsSlot present slots) (beside : List.Forall₂ FitsSlot others slots)
    (spared : List.Forall₂ (SparesSlot early) others items) :
    List.Forall₂ FitsSlot items (mergeItemsBeside early present others) := by
  induction own generalizing present others with
  | nil =>
    cases held
    cases beside
    simp
  | @cons item slot items slots here rest again =>
    cases held with
    | @cons _ y _ present inY restHeld =>
      cases within with
      | cons yInSlot restWithin =>
        cases beside with
        | @cons other _ others _ otherInSlot restBeside =>
          cases spared with
          | cons spares restSpared =>
            rw [mergeItemsBeside_cons]
            refine .cons ?_ (again (fun item member => ih item (List.mem_cons_of_mem _ member))
              restHeld restWithin restBeside restSpared)
            by_cases bare : item.isEmptyContainer = true
            · exact .inl bare
            · -- Then neither is what it is a copy of, nor what holds it.
              have inY := inY.resolve_left bare
              have yInSlot := yInSlot.resolve_left fun empty =>
                bare (isEmptyContainer_of_excerptOf empty inY)
              exact .inr (ih item List.mem_cons_self (here.resolve_left bare) inY yInSlot
                otherInSlot (spares.resolve_left bare))

theorem sparedStays_list {element : ElementKind} {items : List Node}
    (ih : ∀ item ∈ items, item.SparedStays early) : (list element items).SparedStays early := by
  intro whole kept other own held within beside spared
  obtain ⟨_, present, openedKept, below⟩ := excerptOf_list.mp held
  cases kept with
  | list _ _ =>
    cases openedKept
    cases other with
    | list _ others =>
      rcases spares_list.mp spared with slotwise | ⟨apart, rfl⟩
      · obtain ⟨_, slots, opened, belowPresent⟩ := excerptOf_list.mp within
        have belowOwn := (excerptOf_list_of_slots opened).mp own
        have belowOther := beside.slots opened (slotwise.length_eq.trans belowOwn.length_eq)
        have aligned := belowPresent.length_eq.trans belowOther.length_eq.symm
        obtain ⟨kind, shape⟩ := exists_mergeBeside_list early aligned
        rw [shape]
        exact (excerptOf_list_of_slots rfl).mpr
          (sparedStays_items ih belowOwn below belowPresent belowOther slotwise)
      · -- A list of another length that comes later is passed over.
        rw [mergeBeside_list_of_apart (below.length_eq ▸ apart.symm)]
        exact held
    | map entries =>
      cases early with
      | false => simp [spares, isAtomic] at spared
      | true => simpa [mergeBeside, mergeValue] using held
    | _ => exact excerptOf_mergeBeside_of_isAtomic own within beside spared (.inr rfl)
  | map entries => cases openedKept
  | _ => exact excerptOf_mergeBeside_of_isAtomic own within beside spared (.inl rfl)

theorem sparedStays (early : Bool) (part : Node) : part.SparedStays early := by
  induction part using copyInduction with
  | atomic node atomic =>
    intro whole kept other own held within beside spared
    have same := (excerptOf_atomic atomic).mp held
    exact excerptOf_mergeBeside_of_isAtomic own within beside spared (.inl (same ▸ atomic))
  | map entries ih => exact sparedStays_map ih
  | list element items ih => exact sparedStays_list ih

/-- **What two nodes spare is spared by what they make together.** -/
theorem spares_mergeValue (keyed : b.hasDistinctKeys = true) (own : part.hasDistinctKeys = true)
    (ha : a.spares early part = true) (hb : b.spares early part = true) :
    (mergeValue a b).spares early part = true := by
  induction part using copyInduction generalizing a b with
  | atomic node atomic =>
    -- Whether a map or a list spares it does not depend on what is in there.
    rcases mergeValue_cases a b with
      ⟨entries, others, rfl, rfl⟩ | ⟨element, items, kind, others, rfl, rfl⟩ | stays | taken
    · rw [spares_of_isAtomic atomic] at ha ⊢
      rwa [mergeValue]
    · rw [spares_of_isAtomic atomic] at ha ⊢
      rwa [mergeValue]
    · rwa [stays]
    · rwa [taken]
  | map entries ih =>
    rcases mergeValue_cases a b with
      ⟨present, others, rfl, rfl⟩ | ⟨element, items, kind, others, rfl, rfl⟩ | stays | taken
    · have once := nodup_of_opened own rfl
      have ha := (spares_map once).mp ha
      have hb := (spares_map once).mp hb
      rw [mergeValue]
      refine (spares_map once).mpr fun key value other found there => ?_
      rcases get?_mergeEntries_eq_some (nodup_of_opened keyed rfl) found with
        alone | alone | ⟨x, y, foundA, foundB, rfl⟩
      · exact ha key value other alone there
      · exact hb key value other alone there
      · have member := Entries.mem_of_get? there
        exact ih (key, other) member
          (hasDistinctKeys_of_opened keyed rfl (Entries.mem_of_get? foundB))
          (hasDistinctKeys_of_opened own rfl member)
          (ha key x other foundA there) (hb key y other foundB there)
    · rw [mergeValue]
      exact ha
    · rwa [stays]
    · rwa [taken]
  | list element items ih =>
    rcases mergeValue_cases a b with
      ⟨present, others, rfl, rfl⟩ | ⟨_, present, kind, others, rfl, rfl⟩ | stays | taken
    · rw [mergeValue]
      exact ha
    · rw [mergeValue]
      split
      next aligned =>
        -- The two lists are of one length, so the part is spared in the same way by both.
        rcases spares_list.mp ha with slotwise | ⟨apart, late⟩
        · have slotwiseOther := (spares_list.mp hb).resolve_right fun other =>
            other.1 (aligned.symm.trans slotwise.length_eq)
          refine spares_list.mpr (.inl (forall₂_mergeItems ?_ slotwise slotwiseOther))
          intro x _ y listed item member hx hy
          by_cases bare : item.isEmptyContainer = true
          · exact .inl bare
          · exact .inr (ih item member (hasDistinctKeys_of_slots keyed rfl listed)
              (hasDistinctKeys_of_slots own rfl member) (hx.resolve_left bare)
              (hy.resolve_left bare))
        · exact spares_list.mpr (.inr ⟨by rwa [length_mergeItems], late⟩)
      next => exact ha
    · rwa [stays]
    · rwa [taken]

/-- **What comes later and spares a part leaves it in place**, and what was there first and spares it
gives way to it. -/
theorem excerptOf_foldl_of_spares {named : Entries Node} (opened : whole.opened? = some named)
    (distinct : whole.hasDistinctKeys = true) (own : part.ExcerptOf whole)
    {start : Node} {before after : List Node} (hs : start.ExcerptOf whole)
    (hb : ∀ piece ∈ before, piece.ExcerptOf whole) (hk : kept.ExcerptOf whole)
    (ha : ∀ piece ∈ after, piece.ExcerptOf whole) (sparedStart : start.spares true part = true)
    (sparedBefore : ∀ piece ∈ before, piece.spares true part = true) (held : part.ExcerptOf kept)
    (sparedAfter : ∀ piece ∈ after, piece.spares false part = true) :
    part.ExcerptOf ((before ++ kept :: after).foldl Node.merge start) := by
  -- What is there first spares the part however much of it is merged before the part comes.
  induction before generalizing start with
  | cons next before ih =>
    obtain ⟨inWhole, rest⟩ := List.forall_mem_cons.mp hb
    obtain ⟨sparedNext, sparedRest⟩ := List.forall_mem_cons.mp sparedBefore
    rw [List.cons_append, List.foldl_cons, merge_eq_mergeValue opened hs inWhole]
    refine ih (hs.mergeValue distinct inWhole) rest ?_ sparedRest
    exact spares_mergeValue (inWhole.hasDistinctKeys distinct) (own.hasDistinctKeys distinct)
      sparedStart sparedNext
  | nil =>
    have merged : part.ExcerptOf (mergeValue start kept) :=
      sparedStays true part own held hk (.inr hs) sparedStart
    rw [List.nil_append, List.foldl_cons, merge_eq_mergeValue opened hs hk]
    -- From here on the part is there, and stays.
    have here := hs.mergeValue distinct hk
    generalize mergeValue start kept = done at merged here
    clear hb sparedBefore
    induction after generalizing done with
    | nil => exact merged
    | cons next after ih =>
      obtain ⟨inWhole, rest⟩ := List.forall_mem_cons.mp ha
      obtain ⟨sparedNext, sparedRest⟩ := List.forall_mem_cons.mp sparedAfter
      rw [List.foldl_cons, merge_eq_mergeValue opened here inWhole]
      exact ih rest sparedRest _ (sparedStays false part own merged here (.inr inWhole) sparedNext)
        (here.mergeValue distinct inWhole)

/-! ### What is not spared gets lost -/

/-- A list shows nothing that a node with members shows, and the other way round. -/
theorem not_isSubView_of_opened {named : Entries Node} (once : (Entries.keys named).Nodup)
    (opened : part.opened? = some named) (element : ElementKind) (items : List Node) :
    part.toJson.isSubView (list element items).toJson = false ∧
      (list element items).toJson.isSubView part.toJson = false := by
  obtain ⟨members, rendered, -, -⟩ := toJson_of_opened once opened
  rw [rendered, toJson]
  exact ⟨rfl, rfl⟩

theorem not_isSubView_of_isScalar (scalar : part.isScalar = true)
    (bare : other.isEmptyContainer = true) : part.toJson.isSubView other.toJson = false := by
  rcases eq_of_isEmptyContainer bare with rfl | ⟨element, rfl⟩ <;>
    cases part <;> first | rfl | cases scalar

/-- A node that shows nothing is an empty container, or it is copied as it stands. -/
theorem isHollow_cases (distinct : part.hasDistinctKeys = true)
    (hollow : part.toJson.isHollow = true) :
    part.isEmptyContainer = true ∨ part.isAtomic = true ∧ part.isScalar = false := by
  cases part with
  | map entries =>
    left
    have own : (map entries).opened? = some entries := rfl
    obtain ⟨members, rendered, -, perm⟩ := toJson_of_opened (nodup_of_opened distinct rfl) own
    rw [rendered] at hollow
    obtain rfl : members = [] := List.isEmpty_iff.mp hollow
    exact List.isEmpty_iff.mpr (List.map_eq_nil_iff.mp perm.nil_eq.symm)
  | list element items =>
    left
    rw [toJson, jsonItems_eq] at hollow
    exact List.isEmpty_iff.mpr (List.map_eq_nil_iff.mp (List.isEmpty_iff.mp hollow))
  | structured schema values => exact .inr ⟨rfl, rfl⟩
  | blob json => exact .inr ⟨rfl, rfl⟩
  | _ => cases hollow

/-- Whether a node is spared by everything of one model with which it makes something that shows it. -/
def LostUnlessSpared (early : Bool) (part : Node) : Prop :=
  ∀ {whole other : Node}, whole.hasDistinctKeys = true → part.ExcerptOf whole →
    other.FitsSlot whole → part.toJson.isSubView (mergeBeside early part other).toJson = true →
      other.spares early part = true

theorem lostUnlessSpared_atomic (atomic : part.isAtomic = true) : part.LostUnlessSpared early := by
  intro whole other distinct own beside shown
  rw [spares_of_isAtomic atomic]
  by_contra lost
  obtain ⟨⟨rfl, inner⟩, scalar⟩ :
      (early = false ∧ other.isScalar = false) ∧ part.isScalar = true := by simpa using lost
  obtain rfl := (excerptOf_atomic atomic).mp own
  rcases beside with bare | below
  · -- A scalar gives way to an empty container that comes later.
    have taken : mergeBeside false part other = other := by
      cases part <;> simp_all [mergeBeside, mergeValue, isScalar]
    rw [taken, not_isSubView_of_isScalar scalar bare] at shown
    cases shown
  · obtain rfl := eq_of_excerptOf_scalar scalar below
    rw [scalar] at inner
    cases inner

theorem lostUnlessSpared_map {entries : List (String × Node)}
    (ih : ∀ entry ∈ entries, entry.2.LostUnlessSpared early) :
    (map entries).LostUnlessSpared early := by
  intro whole other distinct own beside shown
  obtain ⟨once, named, opened, values⟩ := excerptOf_map.mp own
  cases other with
  | map others =>
    obtain ⟨onceOther, valuesOther⟩ := beside.values opened
    obtain ⟨merged, shape, onceMerged, made⟩ := exists_mergeBeside_map early once onceOther
    rw [shape] at shown
    have shown := (isSubView_iff_of_opened once rfl onceMerged rfl).mp shown
    refine (spares_map once).mpr fun key y x foundOther found => ?_
    obtain ⟨z, held, below⟩ := values key x found
    obtain ⟨_, again, belowOther⟩ := valuesOther key y foundOther
    obtain rfl := Option.some.inj (held.symm.trans again)
    -- Under the key there is what the two values make.
    obtain ⟨_, there, shown⟩ := shown key x found
    rw [made key x found, foundOther] at there
    cases there
    have inside := hasDistinctKeys_of_opened distinct opened (Entries.mem_of_get? held)
    exact ih (key, x) (Entries.mem_of_get? found) inside below (.inr belowOther) shown
  | list element items =>
    cases early with
    | true => rfl
    | false =>
      have taken : mergeBeside false (map entries) (list element items) = list element items := by
        simp [mergeBeside, mergeValue]
      rw [taken, (not_isSubView_of_opened once rfl element items).1] at shown
      cases shown
  | _ => simp [spares, isScalar]

theorem sparesSlot_of_isSubView {items others slots : List Node}
    (ih : ∀ item ∈ items, item.LostUnlessSpared early)
    (distinct : ∀ slot ∈ slots, slot.hasDistinctKeys = true)
    (own : List.Forall₂ FitsSlot items slots) (beside : List.Forall₂ FitsSlot others slots)
    (shown : List.Forall₂ (fun item slot => item.toJson.isHollow = true ∨
      item.toJson.isSubView slot.toJson = true) items (mergeItemsBeside early items others)) :
    List.Forall₂ (SparesSlot early) others items := by
  induction own generalizing others with
  | nil =>
    cases beside
    exact .nil
  | @cons item slot items slots here rest again =>
    cases beside with
    | @cons other _ others _ otherHere otherRest =>
      rw [mergeItemsBeside_cons] at shown
      obtain ⟨shown, shownRest⟩ := List.forall₂_cons.mp shown
      obtain ⟨keyed, keyedRest⟩ := List.forall_mem_cons.mp distinct
      refine .cons ?_ (again (fun item member => ih item (List.mem_cons_of_mem _ member)) keyedRest
        otherRest shownRest)
      by_cases bare : item.isEmptyContainer = true
      · exact .inl bare
      · right
        have below := here.resolve_left bare
        by_cases hollow : item.toJson.isHollow = true
        · obtain ⟨atomic, inner⟩ :=
            (isHollow_cases (below.hasDistinctKeys keyed) hollow).resolve_left bare
          simp [spares_of_isAtomic atomic, inner]
        · exact ih item List.mem_cons_self keyed below otherHere (shown.resolve_left hollow)

theorem lostUnlessSpared_list {element : ElementKind} {items : List Node}
    (ih : ∀ item ∈ items, item.LostUnlessSpared early) :
    (list element items).LostUnlessSpared early := by
  intro whole other distinct own beside shown
  obtain ⟨_, slots, opened, below⟩ := excerptOf_list.mp own
  cases other with
  | list kind others =>
    by_cases aligned : items.length = others.length
    · obtain ⟨_, shape⟩ := exists_mergeBeside_list early aligned
      rw [shape] at shown
      have belowOther := beside.slots opened (aligned.symm.trans below.length_eq)
      exact spares_list.mpr (.inl (sparesSlot_of_isSubView ih
        (fun slot held => hasDistinctKeys_of_slots distinct opened held) below belowOther
        ((isSubView_iff_of_slots rfl rfl).mp shown)))
    · rw [mergeBeside_list_of_apart aligned] at shown
      cases early with
      | false => exact spares_list.mpr (.inr ⟨Ne.symm aligned, rfl⟩)
      | true => exact absurd ((isSubView_iff_of_slots rfl rfl).mp shown).length_eq aligned
  | map others =>
    cases early with
    | true => rfl
    | false =>
      have taken : mergeBeside false (list element items) (map others) = map others := by
        simp [mergeBeside, mergeValue]
      have once : (Entries.keys others).Nodup :=
        nodup_of_opened (beside.hasDistinctKeys distinct) rfl
      rw [taken, (not_isSubView_of_opened once rfl element items).2] at shown
      cases shown
  | _ => simp [spares, isScalar]

theorem lostUnlessSpared (early : Bool) (part : Node) : part.LostUnlessSpared early := by
  induction part using copyInduction with
  | atomic node atomic => exact lostUnlessSpared_atomic atomic
  | map entries ih => exact lostUnlessSpared_map ih
  | list element items ih => exact lostUnlessSpared_list ih

/-- **An excerpt is spared by exactly what costs it nothing.** -/
theorem spares_iff (distinct : whole.hasDistinctKeys = true) (own : part.ExcerptOf whole)
    (beside : other.ExcerptOf whole) : other.spares early part = true ↔
      part.toJson.isSubView (mergeBeside early part other).toJson = true := by
  constructor
  · intro spared
    have itself := ExcerptOf.refl (own.hasDistinctKeys distinct)
    have stays := sparedStays early part own itself own (.inr beside) spared
    exact stays.isSubView ((own.mergeBeside distinct beside).hasDistinctKeys distinct)
  · exact lostUnlessSpared early part distinct own (.inr beside)

/-! ### Parts -/

/-- What stands in for a slot gives way to what is in it. -/
theorem spares_of_standIn {element : ElementKind} (h : part.standIn? element = some other) :
    other.spares early part = true := by
  by_cases atomic : part.isAtomic = true
  · have inner : part.isScalar = false := by
      cases part <;> first | rfl | cases element <;> cases h
    simp [spares_of_isAtomic atomic, inner]
  · obtain rfl := (standIn?_eq_some h).resolve_right fun empty => atomic empty.2
    cases part with
    | map entries => exact emptyMap_spares rfl
    | list kind items => simp at h
    | _ => exact absurd rfl atomic

/-- Between parts, in which stand-ins can be told from values, nothing is lost. -/
theorem PartOf.spares (ha : a.PartOf whole) (hp : part.PartOf whole) :
    a.spares early part = true := by
  induction part using copyInduction generalizing whole a with
  | atomic node atomic =>
    obtain rfl := (partOf_atomic atomic).mp hp
    rw [spares_of_isAtomic atomic]
    cases scalar : node.isScalar with
    | false => simp
    | true =>
      obtain rfl := eq_of_excerptOf_scalar scalar ha.excerptOf
      simp [scalar]
  | map entries ih =>
    obtain ⟨once, named, opened, values⟩ := partOf_map.mp hp
    cases a with
    | map others =>
      obtain ⟨-, valuesOther⟩ := (partOf_map_of_opened opened).mp ha
      refine (spares_map once).mpr fun key y x foundOther found => ?_
      obtain ⟨z, held, below⟩ := values key x found
      obtain ⟨_, again, belowOther⟩ := valuesOther key y foundOther
      obtain rfl := Option.some.inj (held.symm.trans again)
      exact ih (key, x) (Entries.mem_of_get? found) belowOther below
    | list element items =>
      obtain ⟨slots, both, -⟩ := partOf_list.mp ha
      rw [slots?_of_opened opened] at both
      cases both
    | _ => simp [spares, isScalar]
  | list element items ih =>
    obtain ⟨slots, opened, below⟩ := partOf_list.mp hp
    cases a with
    | list kind others =>
      obtain ⟨_, again, belowOther⟩ := partOf_list.mp ha
      cases opened.symm.trans again
      refine spares_list.mpr (.inl (List.forall₂_iff_get.mpr
        ⟨belowOther.length_eq.trans below.length_eq.symm, fun i insideOther inside => ?_⟩))
      have insideSlots : i < slots.length := below.length_eq ▸ inside
      rcases below.get inside insideSlots with standIn | ⟨inSlot, shape⟩
      · left
        rcases standIn?_eq_some standIn with same | ⟨same, -⟩ <;> rw [same] <;> rfl
      · right
        rcases belowOther.get insideOther insideSlots with aside | ⟨otherInSlot, -⟩
        · exact spares_of_standIn ((standIn?_of_partOf inSlot shape element).trans aside)
        · exact ih _ (List.get_mem _ _) otherInSlot inSlot
    | map entries =>
      obtain ⟨-, named, both, -⟩ := partOf_map.mp ha
      rw [slots?_of_opened both] at opened
      cases opened
    | _ => simp [spares, isScalar]

end ModelFeed.Node
