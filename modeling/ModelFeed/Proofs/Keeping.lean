import ModelFeed.Proofs.Narrowing
import ModelFeed.Proofs.Showing
import ModelFeed.Proofs.Sparing
/-!
# Views keep what the filters select

A view is folded together from one projection for each filter. What a filter selects is lost in it
only where another filter leaves out a slot of the same list and the placeholder there does not give
way: an empty list that comes before a longer one, or an empty map or list that comes after a value of
another kind.

So the condition is on what the filters select. One of them has to select all that is asked for, and
against that the filters before it may hold no placeholder that stays, and those after it none that
replaces anything (`Shelters`). For two filters the condition is exact. It is met by filters that
take no list apart out of which they could not leave a slot, whatever the rest of the model is like.
-/

namespace ModelFeed

namespace Subscription

variable {s : Subscription} {root part piece : Node} {tokens : List Token} {early : Bool}

/-- Whether filters cost a part of the model nothing, if they come first or later. -/
def sparedBy (early : Bool) (filters : List Filter) (root piece : Node) : Bool :=
  filters.all fun filter => (root.project? filter.tokens).all fun part => part.spares early piece

/-- Whether a subscription shelters a part of the model: one of its filters selects it, perhaps within
a larger piece, and the filters before that one give way to the piece, while those after it leave it
in place. -/
def Shelters (s : Subscription) (root part : Node) : Prop :=
  ∃ before holder after copy piece, s.filters = before ++ holder :: after ∧
    root.project? holder.tokens = some copy ∧ part.ExcerptOf piece ∧ piece.ExcerptOf copy ∧
    sparedBy true before root piece = true ∧ sparedBy false after root piece = true

theorem sparedBy_iff {filters : List Filter} : sparedBy early filters root piece = true ↔
    ∀ part ∈ filters.filterMap (fun filter => root.project? filter.tokens),
      part.spares early piece = true := by
  simp only [sparedBy, List.all_eq_true, Option.all_eq_true, List.mem_filterMap,
    forall_exists_index, and_imp]
  exact ⟨fun h part filter listed found => h filter listed part found,
    fun h filter listed part found => h part filter listed found⟩

theorem excerptOf_of_mem_projections (distinct : root.hasDistinctKeys = true)
    {filters : List Filter} :
    ∀ part ∈ filters.filterMap (fun filter => root.project? filter.tokens),
      part.ExcerptOf root := by
  intro part member
  obtain ⟨filter, -, found⟩ := List.mem_filterMap.mp member
  exact Node.project?_excerptOf distinct found

/-- What is sheltered is in the view. -/
theorem excerptOf_view_of_shelters {named : Entries Node} (opened : root.opened? = some named)
    (distinct : root.hasDistinctKeys = true) (sheltered : s.Shelters root part) :
    part.ExcerptOf (s.view root) := by
  obtain ⟨before, holder, after, copy, piece, split, found, inPiece, inCopy, sparedBefore,
    sparedAfter⟩ := sheltered
  have inRoot := Node.project?_excerptOf distinct found
  obtain ⟨entries, shape⟩ := Node.exists_opened_of_excerptOf opened (inCopy.trans inRoot)
  have filtered : s.filters.isEmpty = false := by simp [split]
  refine inPiece.trans ?_
  rw [view, if_neg (by simp [filtered]), split, List.filterMap_append, List.filterMap_cons, found]
  exact Node.excerptOf_foldl_of_spares opened distinct (inCopy.trans inRoot)
    (Node.emptyMap_excerptOf opened) (excerptOf_of_mem_projections distinct) inRoot
    (excerptOf_of_mem_projections distinct) (Node.emptyMap_spares shape)
    (sparedBy_iff.mp sparedBefore) inCopy (sparedBy_iff.mp sparedAfter)

/-- A test on tokens: whether some filter selects what they select token by token, and the other
filters spare it. -/
def sheltersTokens (s : Subscription) (root : Node) (tokens : List Token) : Bool :=
  s.filters.zipIdx.any fun (holder, i) => Token.isNarrower tokens holder.tokens &&
    (root.project? tokens).all fun part =>
      sparedBy true (s.filters.take i) root part && sparedBy false (s.filters.drop (i + 1)) root part

theorem shelters_of_isNarrower (distinct : root.hasDistinctKeys = true) {before after : List Filter}
    {holder : Filter} (split : s.filters = before ++ holder :: after)
    (narrower : Token.isNarrower tokens holder.tokens = true)
    (found : root.project? tokens = some part) (sparedBefore : sparedBy true before root part = true)
    (sparedAfter : sparedBy false after root part = true) : s.Shelters root part := by
  obtain ⟨copy, held, below⟩ := Node.project?_mono narrower distinct found
  have keyed := (Node.project?_excerptOf distinct found).hasDistinctKeys distinct
  exact ⟨before, holder, after, copy, part, split, held, .refl keyed, below, sparedBefore,
    sparedAfter⟩

theorem shelters_of_sheltersTokens (distinct : root.hasDistinctKeys = true)
    (found : root.project? tokens = some part) (tested : s.sheltersTokens root tokens = true) :
    s.Shelters root part := by
  simp only [sheltersTokens, List.any_eq_true, Prod.exists, List.mk_mem_zipIdx_iff_getElem?,
    Bool.and_eq_true, Option.all_eq_true] at tested
  obtain ⟨holder, i, here, narrower, spared⟩ := tested
  obtain ⟨sparedBefore, sparedAfter⟩ := spared part found
  obtain ⟨inside, rfl⟩ := List.getElem?_eq_some_iff.mp here
  refine shelters_of_isNarrower distinct ?_ narrower found sparedBefore sparedAfter
  rw [← List.drop_eq_getElem_cons inside, List.take_append_drop]

theorem view_pair {mode : UpdateMode} {first last : Filter} {a b : Node} {named : Entries Node}
    (opened : root.opened? = some named) (distinct : root.hasDistinctKeys = true)
    (foundFirst : root.project? first.tokens = some a)
    (foundLast : root.project? last.tokens = some b) :
    view ⟨mode, [first, last]⟩ root = a.mergeValue b := by
  have inRoot := Node.project?_excerptOf distinct foundFirst
  have lastInRoot := Node.project?_excerptOf distinct foundLast
  have alone : Node.emptyMap.mergeValue a = a :=
    Node.mergeValue_emptyMap (inRoot.hasDistinctKeys distinct)
  simp only [view, List.isEmpty_cons, Bool.false_eq_true, if_false, List.filterMap_cons, foundFirst,
    foundLast, List.filterMap_nil, List.foldl_cons, List.foldl_nil]
  rw [Node.merge_eq_mergeValue opened (Node.emptyMap_excerptOf opened) inRoot, alone,
    Node.merge_eq_mergeValue opened inRoot lastInRoot]

/-- **A view loses nothing that one of its filters selects** and the others spare. And for two filters
that is exact: the one that comes later, or the one that comes first, costs the other something if
it does not spare it. -/
theorem view_keeps_projection {named : Entries Node} (opened : root.opened? = some named)
    (distinct : root.hasDistinctKeys = true) {filter : Filter}
    (found : root.project? filter.tokens = some part) :
    (∀ s : Subscription, s.Shelters root part →
      part.toJson.isSubView (s.view root).toJson = true) ∧
    ∀ (mode : UpdateMode) (other : Filter) (copy : Node),
      root.project? other.tokens = some copy →
        (copy.spares false part = true ↔
          part.toJson.isSubView (view ⟨mode, [filter, other]⟩ root).toJson = true) ∧
        (copy.spares true part = true ↔
          part.toJson.isSubView (view ⟨mode, [other, filter]⟩ root).toJson = true) := by
  have own := Node.project?_excerptOf distinct found
  constructor
  · intro s sheltered
    have held := excerptOf_view_of_shelters opened distinct sheltered
    exact held.isSubView ((view_excerptOf opened distinct).hasDistinctKeys distinct)
  · intro mode other copy foundOther
    have beside := Node.project?_excerptOf distinct foundOther
    rw [view_pair opened distinct found foundOther, view_pair opened distinct foundOther found]
    exact ⟨Node.spares_iff distinct own beside, Node.spares_iff distinct own beside⟩

/-- The machine with the layers also gets two axes, one of them with a letter. -/
def layeredWrites : List Mutation :=
  layerWrites ++ [.set [.member "move", .member "axes"] (Machine.axis.newList 2),
    .set [.member "move", .item "axes" 1, .member "letter"] (.string "Y")]

/-- One layer is asked for, then the other one, and parts of other lists before and after. It is not
lost to the other layer there, which would cost it everything if it came first. -/
theorem view_keeps_layer :
    let root := (WriteSession.applyAll { store := Store.blank } layeredWrites).1.store.root
    let status : Filter := ⟨"state.status", [.name "state", .name "status"]⟩
    let axis : Filter := ⟨"move.axes[0]", [.name "move", .name "axes", .index 0]⟩
    let letter : Filter :=
      ⟨"move.axes[1].letter", [.name "move", .name "axes", .index 1, .name "letter"]⟩
    let layer : Filter := ⟨"job.layers[1]", [.name "job", .name "layers", .index 1]⟩
    let other : Filter := ⟨"job.layers[0]", [.name "job", .name "layers", .index 0]⟩
    let s : Subscription := ⟨.full, [status, letter, layer, other, axis]⟩
    ∃ named part copy, root.opened? = some named ∧ root.hasDistinctKeys = true ∧
      root.project? layer.tokens = some part ∧ s.Shelters root part ∧
      part.toJson.isSubView (s.view root).toJson = true ∧
      root.project? other.tokens = some copy ∧ copy.spares true part = false ∧
      part.toJson.isSubView (view ⟨.full, [other, layer]⟩ root).toJson = false := by
  intro root status axis letter layer other s
  have distinct : root.hasDistinctKeys = true := by decide +kernel
  have opened : ∃ named, root.opened? = some named := ⟨_, rfl⟩
  have selected : (root.project? layer.tokens).isSome = true := by decide +kernel
  have tested : s.sheltersTokens root layer.tokens = true := by decide +kernel
  have apart : ((root.project? other.tokens).bind fun copy =>
      (root.project? layer.tokens).map fun part => copy.spares true part) = some false := by
    decide +kernel
  obtain ⟨named, opened⟩ := opened
  obtain ⟨part, found⟩ := Option.isSome_iff_exists.mp selected
  obtain ⟨copy, foundOther, apart⟩ := Option.bind_eq_some_iff.mp apart
  rw [found, Option.map_some, Option.some.injEq] at apart
  obtain ⟨kept, pairs⟩ := view_keeps_projection opened distinct found
  have sheltered := shelters_of_sheltersTokens distinct found tested
  refine ⟨named, part, copy, opened, distinct, found, sheltered, kept s sheltered, foundOther, apart,
    ?_⟩
  rw [Bool.eq_false_iff, ne_eq, ← (pairs .full other copy foundOther).2, apart]
  exact Bool.false_ne_true

/-- A schema that gives two properties one name. -/
def twin : Schema := ⟨100, "Twin", [⟨"x", .map, false⟩, ⟨"x", .map, false⟩]⟩

/-- Whether, after some writes, the view lacks something that one of the filters selects. -/
def loses (texts : List String) (writes : List Mutation) : Bool :=
  let session := (WriteSession.applyAll { store := Store.blank } writes).1
  let root := session.store.root
  match parse .full texts with
  | .error _ => false
  | .ok s =>
    session.changes.length == writes.length && s.filters.any fun filter =>
      (root.project? filter.tokens).any fun part => !part.toJson.isSubView (s.view root).toJson

/-- In each of these ways a view loses something. Of two lists in a list the first filter keeps out
the one that the second selects, also if that one selects the list whole. What stands in for a scalar
among structured nodes replaces the scalar. And of two properties of one name a document shows the
last, but a projection the one that it goes into. -/
theorem view_loses :
    loses ["job.layers[0]", "job.layers[1]"]
      [.set [.member "job", .member "layers"]
        (.list .list (List.replicate 2 (.list .scalar [.bool true])))] = true ∧
    loses ["job.layers[0]", "job.layers"]
      [.set [.member "job", .member "layers"]
        (.list .list (List.replicate 2 (.list .scalar [.bool true])))] = true ∧
    loses ["tools[0]", "tools[1]"]
      [.set [.member "tools"] (.list (.structured Machine.tool) [.bool true, .bool false])] = true ∧
    loses ["global.s", "global.s.x.*"]
      [.setGlobal "s" twin.new,
        .set [.member "global", .member "s", .member "x", .member "a"] (.bool true)] = true := by
  decide +kernel

end Subscription

end ModelFeed
