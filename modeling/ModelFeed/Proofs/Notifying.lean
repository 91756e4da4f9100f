import ModelFeed.Proofs.Lasting
/-!
# When a client is notified

In full mode the matcher decides whether a client hears of a batch of changes. In patch mode nobody
decides: a patch is put together of what the projections find, and is sent if it is not empty. The
two agree, because the last change that meets something reported leaves something to report itself.

There is one exception. When a parent of selected values is replaced by something that has none of
them, the projections onto the filters find nothing. If nothing else is to be reported either, the
patch is empty, and the client is not told that the values are gone.
-/

namespace ModelFeed

/-! ### Changes that meet what a filter covers -/

namespace Path

/-- What a filter covers it also watches: whatever takes it away touches the filter. -/
theorem touches_of_meets_covered {change front back : Path} {filter : List Token}
    (meets : change.meets (front ++ back) = true) (nonempty : front ≠ [])
    (covered : front.coveredBy filter = true) : change.touches filter = true := by
  induction change generalizing front filter with
  | nil => cases meets
  | cons step change ih =>
    obtain ⟨other, front, rfl⟩ := List.exists_cons_of_ne_nil nonempty
    obtain ⟨token, rest, rfl⟩ := exists_cons_of_coveredBy covered
    obtain ⟨same, ends⟩ := meets_cons.mp meets
    obtain recursive | ⟨selects, follows⟩ := coveredBy_cons_iff.mp covered
    · -- What is covered by `**` may be anything, so the change is covered as well.
      exact touches_iff.mpr ⟨step :: change, [], _, [], List.append_nil _, List.append_nil _,
        List.cons_ne_nil _ _, .inl rfl, coveredBy_of_recursive recursive step change rest⟩
    · rw [← Token.selectsName_congr _ same] at selects
      obtain rfl | ⟨entered, below⟩ := ends
      · exact touches_of_last selects
      obtain follows | ⟨list, i, wanted, more, rfl, rfl, selected, follows⟩ := follows
      · by_cases ended : front = []
        · subst ended
          obtain rfl := coveredBy_nil_iff.mp follows
          exact touches_single selects
        · exact touches_step selects (ih below ended follows)
      · -- The filter goes on from the item that the change goes into as well.
        cases step with
        | member name => cases entered
        | item list index =>
          cases entered
          by_cases ended : front = []
          · subst ended
            obtain rfl := coveredBy_nil_iff.mp follows
            exact touches_selected_item selects selected
          · exact touches_item selects selected (ih below ended follows)

/-- The same for a path on or below a selected value. -/
theorem touches_of_meets {change path : Path} {filter : List Token}
    (meets : change.meets path = true) (within : path.isWithin filter = true) :
    change.touches filter = true := by
  obtain ⟨front, back, rfl, nonempty, covered⟩ := isWithin_iff.mp within
  exact touches_of_meets_covered meets nonempty covered

end Path

/-! ### Patches that are not empty -/

namespace Node

/-- A map that holds something. -/
def IsFilled (node : Node) : Prop :=
  ∃ entries, entries ≠ [] ∧ node = .map entries

theorem mergeEntries_ne_nil {target : Entries Node} {incoming : List (String × Node)}
    (nonempty : target ≠ [] ∨ incoming ≠ []) : mergeEntries target incoming ≠ [] := by
  induction incoming generalizing target with
  | nil => simpa using nonempty
  | cons entry incoming ih =>
    obtain ⟨key, value⟩ := entry
    rw [mergeEntries_cons]
    exact ih (.inl (Entries.insert_ne_nil _ _ _))

theorem isFilled_of_project? {tokens : List Token} {node part : Node}
    (placed : Token.indexesFollowNames false tokens = true)
    (found : node.project? tokens = some part) : part.IsFilled := by
  cases tokens with
  | nil => simp [project?] at found
  | cons token rest =>
    cases token with
    | index wanted => cases placed
    | name text =>
      obtain ⟨ms, listed⟩ := allMembers?_of_project? found
      rw [project?_name_of_allMembers listed] at found
      obtain ⟨selected, rfl⟩ := selectedMembers?_eq_some found
      exact ⟨_, Entries.ofList_ne_nil selected, rfl⟩

/-- What filled maps are merged into holds something. -/
theorem isFilled_foldl {parts : List Node} (filled : ∀ part ∈ parts, part.IsFilled)
    {entries : List (String × Node)} (nonempty : entries ≠ [] ∨ parts ≠ []) :
    (parts.foldl merge (map entries)).IsFilled := by
  induction parts generalizing entries with
  | nil => exact ⟨entries, by simpa using nonempty, rfl⟩
  | cons part parts ih =>
    obtain ⟨others, holds, rfl⟩ := filled part List.mem_cons_self
    rw [List.foldl_cons, merge_map]
    exact ih (fun part later => filled part (List.mem_cons_of_mem _ later))
      (.inl (mergeEntries_ne_nil (.inr holds)))

theorem isFilled_of_remains? {root part : Node} {path : Path} (h : root.remains? path = some part) :
    part.IsFilled := by
  obtain ⟨source, found⟩ := exists_projected_of_remains? h
  exact isFilled_of_project? source.tokens_placed found

end Node

namespace Subscription

variable {s : Subscription} {root part : Node} {changes : List Path} {path : Path}

theorem isFilled_of_below? (placed : s.IsPlaced) (h : s.below? root path = some part) :
    part.IsFilled := by
  obtain ⟨first, pieces, rfl, made⟩ := below?_eq_some h
  have each : ∀ piece ∈ first :: pieces, piece.IsFilled := by
    intro piece member
    obtain ⟨filter, listed, -, found⟩ := (made piece).mp member
    exact Node.isFilled_of_project? (placed filter listed) found
  obtain ⟨entries, holds, rfl⟩ := each first List.mem_cons_self
  exact Node.isFilled_foldl (fun piece later => each piece (List.mem_cons_of_mem _ later))
    (.inl holds)

theorem isFilled_of_contribution? (placed : s.IsPlaced)
    (h : s.contribution? root path = some part) : part.IsFilled := by
  cases covered : s.covers path with
  | true =>
    rw [contribution?_of_covers covered] at h
    exact Node.isFilled_of_remains? h
  | false =>
    rw [contribution?_of_not_covers covered] at h
    exact isFilled_of_below? placed h

theorem isFilled_patch (placed : s.IsPlaced) (changed : path ∈ changes)
    (contributes : s.contribution? root path = some part) : (s.patch root changes).IsFilled := by
  have held : part ∈ changes.filterMap (s.contribution? root) :=
    List.mem_filterMap.mpr ⟨path, changed, contributes⟩
  refine Node.isFilled_foldl (fun part member => ?_) (.inr (List.ne_nil_of_mem held))
  obtain ⟨path, -, found⟩ := List.mem_filterMap.mp member
  exact isFilled_of_contribution? placed found

/-- A patch is sent where some change contributes to it. -/
theorem update?_isSome_of_patch (patches : s.mode = .patch) (placed : s.IsPlaced) :
    (s.update? root changes).isSome = true ↔
      ∃ path ∈ changes, (s.contribution? root path).isSome = true := by
  constructor
  · intro sent
    by_contra silent
    have nothing : changes.filterMap (s.contribution? root) = [] := by
      rw [List.filterMap_eq_nil_iff]
      intro path changed
      rw [← Option.not_isSome_iff_eq_none]
      exact fun contributes => silent ⟨path, changed, contributes⟩
    simp [update?, patches, patch, nothing, Node.emptyMap, Node.isEmptyContainer] at sent
  · rintro ⟨path, changed, contributes⟩
    obtain ⟨part, found⟩ := Option.isSome_iff_exists.mp contributes
    obtain ⟨entries, holds, merged⟩ := isFilled_patch placed changed found
    have full : (s.patch root changes).isEmptyContainer = false := by
      rw [merged]
      cases entries with
      | nil => exact absurd rfl holds
      | cons entry entries => rfl
    simp [update?, patches, full]

/-- Only what affects a subscription contributes to its patches. -/
theorem isAffected_of_contribution? (contributes : (s.contribution? root path).isSome = true) :
    s.isAffected path = true := by
  cases covered : s.covers path with
  | true =>
    simp only [covers, Bool.or_eq_true, List.any_eq_true] at covered
    simp only [isAffected, Bool.or_eq_true, List.any_eq_true]
    refine covered.imp_right ?_
    rintro ⟨filter, listed, within⟩
    exact ⟨filter, listed, .inl within⟩
  | false =>
    rw [contribution?_of_not_covers covered] at contributes
    obtain ⟨filter, listed, above, -⟩ := below?_isSome_iff.mp contributes
    simp only [isAffected, Bool.or_eq_true, List.any_eq_true]
    exact .inr ⟨filter, listed, .inr above⟩

/-! ### Runs -/

/-- A change that does not affect a subscription leaves alone what its filters cover. -/
theorem landed_of_unaffected {change : Path} {before after : Node}
    (altered : Altered change before after) (unaffected : s.isAffected change = false)
    (covered : s.covers path = true) (landed : before.Landed path) : after.Landed path := by
  obtain ⟨filtered, untouched⟩ := isAffected_eq_false_iff.mp unaffected
  obtain ⟨filter, listed, within⟩ : ∃ filter ∈ s.filters, path.isWithin filter.tokens = true := by
    simpa [covers, filtered] using covered
  obtain ⟨front, back, rfl, nonempty, short, has⟩ := landed
  have apart : change.meets front = false := Bool.eq_false_iff.mpr fun meets => by
    have touched := Path.touches_of_meets (Path.meets_append meets back) within
    rw [untouched filter listed] at touched
    cases touched
  exact ⟨front, back, rfl, nonempty, short, altered.hasPath has apart⟩

/-- If some change of a session affects the subscription, then there is one of which something is
left, unless it is a replaced parent. -/
def Stands (s : Subscription) (session : WriteSession) : Prop :=
  session.changes.any s.isAffected = true → ∃ path ∈ session.changes,
    s.isAffected path = true ∧ (s.covers path = true → session.store.root.Landed path)

theorem stands_apply {session : WriteSession} (stands : s.Stands session) (mutation : Mutation) :
    s.Stands (session.apply mutation).1 := by
  rcases session.apply_cases mutation with ⟨store, path, applied, recorded⟩ | unchanged
  · rw [recorded]
    intro noticed
    by_cases affected : s.isAffected path = true
    · -- The change that is new has only just been made.
      exact ⟨path, by simp, affected, fun _ => landed_of_apply applied⟩
    · -- The one there was is still there, since the new change does not concern it.
      have unaffected : s.isAffected path = false := by simpa using affected
      simp only [List.any_append, List.any_cons, unaffected, List.any_nil, Bool.or_self,
        Bool.or_false] at noticed
      obtain ⟨earlier, reported, concerns, landed⟩ := stands noticed
      refine ⟨earlier, List.mem_append_left _ reported, concerns, fun covered => ?_⟩
      exact landed_of_unaffected (altered_of_apply applied) unaffected covered (landed covered)
  · rwa [unchanged]

theorem stands_applyAll {session : WriteSession} (stands : s.Stands session)
    (mutations : List Mutation) : s.Stands (session.applyAll mutations).1 := by
  induction mutations generalizing session with
  | nil => exact stands
  | cons mutation mutations ih => exact ih (stands_apply stands mutation)

/-- If parents of selected values were replaced, then something selected is below one of them. -/
def Answers (s : Subscription) (root : Node) (changes : List Path) : Prop :=
  (∃ path ∈ changes, s.covers path = false ∧ s.isAffected path = true) →
    ∃ path ∈ changes, s.covers path = false ∧ (s.below? root path).isSome = true

theorem exists_contribution_of_stands {session : WriteSession} (stands : s.Stands session)
    (kinds : session.store.root.everywhere Node.keepsPropertyKinds = true)
    (answers : s.Answers session.store.root session.changes)
    (noticed : session.changes.any s.isAffected = true) :
    ∃ path ∈ session.changes, (s.contribution? session.store.root path).isSome = true := by
  obtain ⟨path, changed, affected, landed⟩ := stands noticed
  cases covered : s.covers path with
  | true =>
    obtain ⟨part, remains⟩ := Node.exists_remains?_of_landed kinds (landed covered)
    exact ⟨path, changed, by rw [contribution?_of_covers covered, remains]; rfl⟩
  | false =>
    obtain ⟨other, also, uncovered, below⟩ := answers ⟨path, changed, covered, affected⟩
    exact ⟨other, also, by rwa [contribution?_of_not_covers uncovered]⟩

/-- **Both modes notify for the same batches**: those with a change that affects the subscription.
Only where parents of selected values were replaced, and no such value is below any of them now, may
a client in patch mode miss the batch. -/
theorem modes_notify_alike {start : Store} {mutations : List Mutation} {session : WriteSession}
    (ran : (WriteSession.applyAll { store := start } mutations).1 = session)
    {filters : List Filter} (read : ∀ filter ∈ filters, filter.IsRead)
    (kinds : session.store.root.everywhere Node.keepsPropertyKinds = true)
    (answers : Answers ⟨.patch, filters⟩ session.store.root session.changes) :
    (update? ⟨.patch, filters⟩ session.store.root session.changes).isSome =
        session.changes.any (isAffected ⟨.patch, filters⟩) ∧
      (update? ⟨.patch, filters⟩ session.store.root session.changes).isSome =
        (update? ⟨.full, filters⟩ session.store.root session.changes).isSome := by
  have full : (update? ⟨.full, filters⟩ session.store.root session.changes).isSome =
      session.changes.any (isAffected ⟨.patch, filters⟩) := by
    have alike : isAffected ⟨.full, filters⟩ = isAffected ⟨.patch, filters⟩ := rfl
    simp only [update?, alike]
    split
    next noticed => rw [noticed, Option.isSome_some]
    next unnoticed => rw [Bool.eq_false_iff.mpr unnoticed, Option.isSome_none]
  have patched : (update? ⟨.patch, filters⟩ session.store.root session.changes).isSome =
      session.changes.any (isAffected ⟨.patch, filters⟩) := by
    rw [Bool.eq_iff_iff, update?_isSome_of_patch rfl (isPlaced_of_read read)]
    constructor
    · rintro ⟨path, changed, contributes⟩
      exact List.any_eq_true.mpr ⟨path, changed, isAffected_of_contribution? contributes⟩
    · intro noticed
      have begins : Stands ⟨.patch, filters⟩ { store := start } := fun none_ => by cases none_
      have stands := stands_applyAll begins mutations
      rw [ran] at stands
      exact exists_contribution_of_stands stands kinds answers noticed
  exact ⟨patched, patched.trans full.symm⟩

/-- What a message box shows. -/
def greeting : Node :=
  .blob (.object [("title", .string "Hello")])

/-- A message box appears, and a variable comes and goes. -/
def greetingWrites : List Mutation :=
  [.set [.member "state", .member "messageBox"] greeting, .setGlobal "x" (.bool true),
    .removeGlobal "x"]

theorem modes_notify_alike_of_greeting :
    let session := (WriteSession.applyAll { store := Store.blank } greetingWrites).1
    let filters : List Filter := [⟨"state.messageBox.title",
      [.name "state", .name "messageBox", .name "title"]⟩, ⟨"global.x", [.name "global", .name "x"]⟩]
    (∀ filter ∈ filters, filter.IsRead) ∧
      session.store.root.everywhere Node.keepsPropertyKinds = true ∧
      Answers ⟨.patch, filters⟩ session.store.root session.changes ∧
      session.changes.any (isAffected ⟨.patch, filters⟩) = true ∧
      (update? ⟨.patch, filters⟩ session.store.root session.changes).isSome =
        session.changes.any (isAffected ⟨.patch, filters⟩) ∧
      (update? ⟨.patch, filters⟩ session.store.root session.changes).isSome =
        (update? ⟨.full, filters⟩ session.store.root session.changes).isSome := by
  intro session filters
  have read : ∀ filter ∈ filters, filter.IsRead := by
    intro filter listed
    simp only [filters, List.mem_cons, List.not_mem_nil, or_false] at listed
    rcases listed with rfl | rfl
    · exact ⟨.path, "state.messageBox.title", by rfl⟩
    · exact ⟨.path, "global.x", by rfl⟩
  have kinds : session.store.root.everywhere Node.keepsPropertyKinds = true := by decide +kernel
  have answers : Answers ⟨.patch, filters⟩ session.store.root session.changes := by
    unfold Answers
    decide +kernel
  have noticed : session.changes.any (isAffected ⟨.patch, filters⟩) = true := by decide +kernel
  exact ⟨read, kinds, answers, noticed, modes_notify_alike rfl read kinds answers⟩

/-- When the message box is cleared, a client in full mode is notified that its title is gone. A
client in patch mode is not. -/
theorem cleared_parent_unreported :
    let box : Path := [.member "state", .member "messageBox"]
    let earlier := (WriteSession.applyAll { store := Store.blank } [.set box greeting]).1
    let session := (WriteSession.applyAll { store := earlier.store } [.set box .null]).1
    let filters : List Filter :=
      [⟨"state.messageBox.title", [.name "state", .name "messageBox", .name "title"]⟩]
    session.changes = [box] ∧
      isAffected ⟨.patch, filters⟩ box = true ∧
      (update? ⟨.full, filters⟩ session.store.root session.changes).isSome = true ∧
      (update? ⟨.patch, filters⟩ session.store.root session.changes).isNone = true := by
  decide +kernel

end Subscription

end ModelFeed
