import ModelFeed.Node.Basic
/-!
# Merging partial models

Several projections of one model are folded into one tree. Maps are merged key by key and lists of
equal length slot by slot. Scalars and verbatim parts (structured nodes and blobs) already hold all
that a projection can contain, so they stay, except that a scalar gives way to a container; a map
or list gives way to any node of another shape. Lists of different lengths cannot be aligned, and
the one already there stays.
-/

namespace ModelFeed.Node

mutual

/-- What becomes of a node when another is merged into it. -/
def mergeValue : (target incoming : Node) → Node
  | .map target, .map incoming => .map (mergeEntries target incoming)
  | .list element target, .list _ incoming =>
    .list element (if target.length = incoming.length then mergeItems target incoming else target)
  -- Maps and lists may be partial, and give way to what is of another shape.
  | .map _, incoming => incoming
  | .list .., incoming => incoming
  | target, incoming => if target.isScalar && !incoming.isScalar then incoming else target

/-- Entries with others merged into them; new keys are added at the end. -/
def mergeEntries (target : Entries Node) : List (String × Node) → Entries Node
  | [] => target
  | (key, value) :: incoming =>
    let merged :=
      match Entries.get? key target with
      | some present => mergeValue present value
      | none => value
    mergeEntries (Entries.insert key merged target) incoming

/-- Merges slot by slot. -/
def mergeItems : (target incoming : List Node) → List Node
  | present :: target, value :: incoming =>
    mergeValue present value :: mergeItems target incoming
  | target, _ => target

end

/-- The first tree with the second merged into it. Null and the empty map change nothing. -/
def merge (target incoming : Node) : Node :=
  match incoming with
  | .null => target
  | .map [] => target
  | incoming => mergeValue target incoming

@[simp] theorem merge_null (target : Node) : target.merge .null = target := rfl

@[simp] theorem merge_emptyMap (target : Node) : target.merge emptyMap = target := rfl

@[simp] theorem mergeEntries_nil (target : Entries Node) : mergeEntries target [] = target := by
  rw [mergeEntries]

theorem length_mergeItems (target incoming : List Node) :
    (mergeItems target incoming).length = target.length := by
  induction target generalizing incoming with
  | nil => simp [mergeItems]
  | cons present target ih =>
    cases incoming with
    | nil => simp [mergeItems]
    | cons value incoming => simp [mergeItems, ih]

end ModelFeed.Node
