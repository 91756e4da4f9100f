import ModelFeed.Filter.Listing
import ModelFeed.Filter.Matching
import ModelFeed.Lookup
import ModelFeed.Merge
import ModelFeed.Message.Basic
import ModelFeed.Projection
/-!
# Subscriptions

A subscription selects a view of the model: the merged projections onto its filters, or the whole
model if it has none. In full mode an update is the whole view, sent when a change affects it. In
patch mode it is what the changes left at their paths. When a change replaced a parent of selected
values, the patch holds what the filters select below it; when a changed entry is gone, its parent
is sent instead.
-/

namespace ModelFeed

structure Subscription where
  mode : UpdateMode
  /-- No filters select the whole model. -/
  filters : List Filter
deriving DecidableEq, Repr

/-- What is at a changed path, or at its parent if there is nothing any more. -/
def Node.remains? (root : Node) (path : Path) : Option Node :=
  (root.project? path.tokens).orElse fun _ =>
    path.splitLast?.bind fun (parents, _) => root.project? parents.tokens

/-- What is left of a change is the projection onto its path or onto that of its parent. -/
theorem Node.exists_projected_of_remains? {root part : Node} {path : Path}
    (h : root.remains? path = some part) : ∃ source : Path, root.project? source.tokens = some part := by
  unfold remains? at h
  cases found : root.project? path.tokens with
  | some own =>
    rw [found] at h
    cases h
    exact ⟨path, found⟩
  | none =>
    rw [found] at h
    obtain ⟨⟨parents, last⟩, -, projected⟩ := Option.bind_eq_some_iff.mp h
    exact ⟨parents, projected⟩

namespace Subscription

/-- The subscription to filters given as texts; the first bad filter decides the error. -/
def parse (mode : UpdateMode) (texts : List String) : Except FilterError Subscription := do
  let filters ← texts.mapM Filter.parseList
  return ⟨mode, filters.flatten⟩

/-- The view of a model. -/
def view (s : Subscription) (root : Node) : Node :=
  if s.filters.isEmpty then root
  else (s.filters.filterMap fun filter => root.project? filter.tokens).foldl Node.merge .emptyMap

/-- Whether a change at a path alters what the client receives. -/
def isAffected (s : Subscription) (path : Path) : Bool :=
  s.filters.isEmpty ||
    s.filters.any fun filter => path.isWithin filter.tokens || path.isAbove filter.tokens

/-- What the filters select below a replaced parent. -/
def below? (s : Subscription) (root : Node) (path : Path) : Option Node :=
  let parts := s.filters.filterMap fun filter =>
    if path.isAbove filter.tokens then root.project? filter.tokens else none
  match parts with
  | [] => none
  | part :: parts => some (parts.foldl Node.merge part)

/-- What one change contributes to a patch. -/
def contribution? (s : Subscription) (root : Node) (path : Path) : Option Node :=
  if s.filters.isEmpty || s.filters.any (fun filter => path.isWithin filter.tokens) then
    root.remains? path
  else s.below? root path

/-- The merged contributions of the changes. -/
def patch (s : Subscription) (root : Node) (changes : List Path) : Node :=
  (changes.filterMap (s.contribution? root)).foldl Node.merge .emptyMap

/-- The update for a batch of changes, if any of them concerns the client. -/
def update? (s : Subscription) (root : Node) (changes : List Path) : Option Node :=
  match s.mode with
  | .full => if changes.any s.isAffected then some (s.view root) else none
  | .patch =>
    let patch := s.patch root changes
    if patch.isEmptyContainer then none else some patch

/-- What is sent for a replaced parent is folded together from the projections onto the filters that
lead below it. -/
theorem below?_eq_some {s : Subscription} {root part : Node} {path : Path}
    (h : s.below? root path = some part) :
    ∃ first pieces, part = pieces.foldl Node.merge first ∧ ∀ piece, piece ∈ first :: pieces ↔
      ∃ filter ∈ s.filters, path.isAbove filter.tokens = true ∧
        root.project? filter.tokens = some piece := by
  simp only [below?] at h
  split at h
  next => cases h
  next first pieces split =>
    cases h
    refine ⟨first, pieces, rfl, fun piece => ?_⟩
    rw [← split]
    simp only [List.mem_filterMap, Option.ite_none_right_eq_some]

end Subscription

/-- The value a query asks for. -/
def Node.query (root : Node) (path : String) (restrictedOnly : Bool) :
    Except FilterError (Option Json) := do
  let tokens ← Token.parse .path path
  return (root.resolve? tokens restrictedOnly).map Found.toJson

end ModelFeed
