import ModelFeed.Proofs.Excerpts
import ModelFeed.Proofs.Patching
/-!
# All that is sent is in the model

Views and patches are folded together from projections, and projections are excerpts of the model
whatever its lists hold. So every view and every update is an excerpt, and looks like a sub-view of
the model, also for changes that are long out of date.
-/

namespace ModelFeed

/-- The path whose projection reports a change: its own, or its parent's if there is nothing. -/
def Node.reported? (root : Node) (path : Path) : Option Path :=
  if (root.project? path.tokens).isSome then some path
  else path.splitLast?.map Prod.fst

theorem Node.remains?_eq (root : Node) (path : Path) :
    root.remains? path = (root.reported? path).bind fun reported =>
      root.project? reported.tokens := by
  unfold remains? reported?
  cases found : root.project? path.tokens with
  | some part => simp [found]
  | none => cases path.splitLast? <;> simp

namespace Subscription

variable {s : Subscription} {root whole part : Node} {changes : List Path} {path : Path}

/-- The filters of which a change contributes the merged projections: that of the path that reports
it, or those below a replaced parent. -/
def sources (s : Subscription) (root : Node) (path : Path) : List (List Token) :=
  if s.covers path then (root.reported? path).toList.map Path.tokens
  else (s.filters.filter fun filter => path.isAbove filter.tokens).map Filter.tokens

theorem excerptOf_of_contribution? {named : Entries Node} (opened : whole.opened? = some named)
    (distinct : whole.hasDistinctKeys = true)
    (within : ∀ tokens ∈ s.sources root path, ∀ piece, root.project? tokens = some piece →
      piece.ExcerptOf whole)
    (h : s.contribution? root path = some part) : part.ExcerptOf whole := by
  unfold sources at within
  cases covered : s.covers path with
  | true =>
    rw [contribution?_of_covers covered, Node.remains?_eq] at h
    obtain ⟨reported, located, found⟩ := Option.bind_eq_some_iff.mp h
    rw [if_pos covered, located] at within
    exact within reported.tokens (List.mem_singleton.mpr rfl) part found
  | false =>
    rw [contribution?_of_not_covers covered] at h
    rw [if_neg (by simp [covered])] at within
    obtain ⟨first, rest, rfl, made⟩ := below?_eq_some h
    have each : ∀ piece ∈ first :: rest, piece.ExcerptOf whole := by
      intro piece member
      obtain ⟨filter, listed, above, found⟩ := (made piece).mp member
      exact within filter.tokens
        (List.mem_map_of_mem (List.mem_filter.mpr ⟨listed, above⟩)) piece found
    obtain ⟨start, later⟩ := List.forall_mem_cons.mp each
    exact start.foldl opened distinct later

/-- A patch is an excerpt of whatever the projections that it is made of are excerpts of. -/
theorem patch_excerptOf {named : Entries Node} (opened : whole.opened? = some named)
    (distinct : whole.hasDistinctKeys = true)
    (within : ∀ path ∈ changes, ∀ tokens ∈ s.sources root path, ∀ piece,
      root.project? tokens = some piece → piece.ExcerptOf whole) :
    (s.patch root changes).ExcerptOf whole := by
  refine (Node.emptyMap_excerptOf opened).foldl opened distinct fun part member => ?_
  obtain ⟨path, changed, found⟩ := List.mem_filterMap.mp member
  exact excerptOf_of_contribution? opened distinct (within path changed) found

theorem view_excerptOf {named : Entries Node} (opened : root.opened? = some named)
    (distinct : root.hasDistinctKeys = true) : (s.view root).ExcerptOf root := by
  unfold view
  split
  next => exact .refl distinct
  next =>
    refine (Node.emptyMap_excerptOf opened).foldl opened distinct fun part member => ?_
    obtain ⟨filter, -, found⟩ := List.mem_filterMap.mp member
    exact Node.project?_excerptOf distinct found

/-- **All that is sent is in the model.** Views, updates for any changes and projections onto any
tokens are sub-views of the model, whatever the lists of the model hold. -/
theorem sent_isSubView {named : Entries Node} (opened : root.opened? = some named)
    (distinct : root.hasDistinctKeys = true) (s : Subscription) (changes : List Path) :
    (s.view root).toJson.isSubView root.toJson = true ∧
      (∀ update, s.update? root changes = some update →
        update.toJson.isSubView root.toJson = true) ∧
      ∀ tokens part, root.project? tokens = some part →
        part.toJson.isSubView root.toJson = true := by
  have view := (view_excerptOf (s := s) opened distinct).isSubView distinct
  refine ⟨view, ?_, ?_⟩
  · intro update sent
    unfold update? at sent
    split at sent
    next =>
      split at sent
      next =>
        cases sent
        exact view
      next => cases sent
    next =>
      dsimp only at sent
      split at sent
      next => cases sent
      next =>
        cases sent
        have within : (s.patch root changes).ExcerptOf root :=
          patch_excerptOf opened distinct fun _ _ _ _ _ => Node.project?_excerptOf distinct
        exact within.isSubView distinct
  · intro tokens part found
    exact (Node.project?_excerptOf distinct found).isSubView distinct

/-- A machine gets two layers, and each of them is a list. -/
def layerWrites : List Mutation :=
  [.set [.member "job", .member "layers"]
    (.list .list [.list .scalar [.bool true], .list .scalar [.bool false, .bool true]])]

/-- Where two filters select different layers, and a change tells of a layer that never was. -/
theorem layers_sent_isSubView :
    let root := (WriteSession.applyAll { store := Store.blank } layerWrites).1.store.root
    let s : Subscription := ⟨.patch, [⟨"job.layers[0]", [.name "job", .name "layers", .index 0]⟩,
      ⟨"job.layers[1]", [.name "job", .name "layers", .index 1]⟩]⟩
    let changes : List Path := [[.member "job", .item "layers" 7], [.member "job"]]
    ∃ named, root.opened? = some named ∧ root.hasDistinctKeys = true ∧
      (s.update? root changes).isSome = true ∧
      (s.view root).toJson.isSubView root.toJson = true ∧
      (∀ update, s.update? root changes = some update →
        update.toJson.isSubView root.toJson = true) ∧
      ∀ tokens part, root.project? tokens = some part →
        part.toJson.isSubView root.toJson = true := by
  intro root s changes
  have distinct : root.hasDistinctKeys = true := by decide +kernel
  have opened : ∃ named, root.opened? = some named := ⟨_, rfl⟩
  have sent : (s.update? root changes).isSome = true := by decide +kernel
  obtain ⟨named, opened⟩ := opened
  exact ⟨named, opened, distinct, sent, sent_isSubView opened distinct s changes⟩

end Subscription

end ModelFeed
