import Mathlib.Logic.Relation
import ModelFeed.Proofs.Unaffected
/-!
# Wider filters

A filter is widened by small changes: a name becomes `*`, an index becomes `[*]` or is left out, and
what a name begins becomes `**`. A wider filter covers every path that the narrower one covers. That
is not enough for a client to hear of the same changes, because a change above the selected values
counts as well, and a wider filter has other parents: it may be shorter, and end where the narrower
one only passed. Cut in two anywhere, a widened filter is a widened front part and some rest, and
that carries over both ways in which a change touches a filter.
-/

namespace ModelFeed

/-- One change that widens a filter. -/
inductive Token.Widens : List Token → List Token → Prop
  | anyName {text : String} {rest : List Token} (single : text ≠ "**") :
      Widens (.name text :: rest) (.name "*" :: rest)
  | anyItem {wanted : Int} {rest : List Token} :
      Widens (.index wanted :: rest) (.index everyIndex :: rest)
  | withoutIndex {text : String} {wanted : Int} {rest : List Token} :
      Widens (.name text :: .index wanted :: rest) (.name text :: rest)
  | allBelow {text : String} {rest : List Token} : Widens (.name text :: rest) [.name "**"]
  | later {token : Token} {narrow wide : List Token} (widens : Widens narrow wide) :
      Widens (token :: narrow) (token :: wide)

namespace Path

open Token (Widens)

variable {path : Path} {narrow wide start rest : List Token}

/-- A filter that is wider covers no less. -/
theorem coveredBy_of_widens (widens : Widens narrow wide) (covered : path.coveredBy narrow = true) :
    path.coveredBy wide = true := by
  induction path generalizing narrow wide with
  | nil =>
    obtain rfl := coveredBy_nil_iff.mp covered
    cases widens
  | cons step path ih =>
    cases widens with
    | @anyName text rest single =>
      obtain recursive | ⟨-, follows⟩ := coveredBy_cons_iff.mp covered
      · exact absurd recursive (by simpa using single)
      · exact coveredBy_cons_iff.mpr (.inr ⟨rfl, follows⟩)
    | @anyItem wanted rest =>
      rw [coveredBy_index] at covered
      cases covered
    | @withoutIndex text wanted rest =>
      obtain recursive | ⟨selects, follows⟩ := coveredBy_cons_iff.mp covered
      · exact coveredBy_of_recursive recursive step path rest
      · obtain follows | ⟨list, i, other, more, -, placed, -, follows⟩ := follows
        · -- The index would have to describe a step of its own.
          rw [coveredBy_index] at follows
          cases follows
        · cases placed
          exact coveredBy_step selects follows
    | allBelow => exact coveredBy_of_recursive rfl step path []
    | @later token narrow wide widens =>
      obtain recursive | ⟨selects, follows⟩ := coveredBy_cons_iff.mp covered
      · exact coveredBy_of_recursive recursive step path wide
      · obtain follows | ⟨list, i, wanted, more, rfl, rfl, selected, follows⟩ := follows
        · exact coveredBy_step selects (ih widens follows)
        · -- What describes the item may be widened itself, or what comes after it.
          cases widens with
          | anyItem => exact coveredBy_item selects rfl follows
          | later widens => exact coveredBy_item selects selected (ih widens follows)

end Path

/-- Of a widened filter that is cut in two, the front part is what it was or is widened itself. Where
there was no rest there is none. -/
theorem Token.Widens.split {start rest wide : List Token} (widens : Widens (start ++ rest) wide) :
    ∃ front back, front ++ back = wide ∧ (front = start ∨ Widens start front) ∧
      (rest = [] → back = []) := by
  induction start generalizing wide with
  | nil =>
    refine ⟨[], wide, rfl, .inl rfl, ?_⟩
    rintro rfl
    cases widens
  | cons token start ih =>
    rw [List.cons_append] at widens
    generalize joined : start ++ rest = narrow at widens
    cases widens with
    | anyName single =>
      exact ⟨.name "*" :: start, rest, by rw [← joined]; rfl, .inr (.anyName single), id⟩
    | anyItem =>
      exact ⟨.index everyIndex :: start, rest, by rw [← joined]; rfl, .inr .anyItem, id⟩
    | @withoutIndex text wanted more =>
      cases start with
      | nil =>
        -- The cut lies between the name and its index, so the front part stays as it is.
        refine ⟨[.name text], more, rfl, .inl rfl, ?_⟩
        rintro rfl
        cases joined
      | cons next start =>
        obtain ⟨rfl, rfl⟩ := List.cons.inj joined
        exact ⟨.name text :: start, rest, rfl, .inr .withoutIndex, id⟩
    | allBelow => exact ⟨[.name "**"], [], rfl, .inr .allBelow, fun _ => rfl⟩
    | later widens =>
      subst joined
      obtain ⟨front, back, rfl, wider, ended⟩ := ih widens
      refine ⟨token :: front, back, rfl, ?_, ended⟩
      obtain rfl | wider := wider
      · exact .inl rfl
      · exact .inr (.later wider)

namespace Path

open Token (Widens)

variable {path : Path} {narrow wide : List Token}

/-- A change that touches a filter touches every wider one. -/
theorem touches_of_widens (widens : Widens narrow wide) (touched : path.touches narrow = true) :
    path.touches wide = true := by
  obtain ⟨front, back, start, rest, rfl, rfl, nonempty, ended, covered⟩ := touches_iff.mp touched
  obtain ⟨wider, others, rfl, widened, used⟩ := widens.split
  -- What was used up of the filter is so still, and what it covers is covered still.
  have stillCovered : front.coveredBy wider = true := by
    obtain rfl | widened := widened
    · exact covered
    · exact coveredBy_of_widens widened covered
  exact touches_iff.mpr ⟨front, back, wider, others, rfl, rfl, nonempty, ended.imp_right used,
    stillCovered⟩

/-- What one change that widens a filter does not lose, no number of them loses. -/
theorem kept_of_widened {test : List Token → Bool}
    (step : ∀ {narrow wide}, Widens narrow wide → test narrow = true → test wide = true)
    (widened : Relation.ReflTransGen Widens narrow wide) (holds : test narrow = true) :
    test wide = true := by
  induction widened with
  | refl => exact holds
  | tail _ widens ih => exact step widens ih

end Path

namespace Subscription

/-- **Widening a filter never loses a change.** If a filter was widened by any number of changes, it
covers every path that it covered, and a client that has it in the place of the narrower one is
affected by every change that affected it. -/
theorem isAffected_of_widened {narrow wide : List Token}
    (widened : Relation.ReflTransGen Token.Widens narrow wide) (path : Path) :
    (path.coveredBy narrow = true → path.coveredBy wide = true) ∧
      ∀ (mode : UpdateMode) (before after : List Filter) (raw newRaw : String),
        isAffected ⟨mode, before ++ ⟨raw, narrow⟩ :: after⟩ path = true →
          isAffected ⟨mode, before ++ ⟨newRaw, wide⟩ :: after⟩ path = true := by
  refine ⟨Path.kept_of_widened Path.coveredBy_of_widens widened, ?_⟩
  intro mode before after raw newRaw affected
  apply isAffected_iff.mpr
  right
  obtain none_ | ⟨filter, held, touched⟩ := isAffected_iff.mp affected
  · simp at none_
  · obtain front | rfl | back : filter ∈ before ∨ filter = ⟨raw, narrow⟩ ∨ filter ∈ after := by
      simpa using held
    · exact ⟨filter, by simp [front], touched⟩
    · refine ⟨⟨newRaw, wide⟩, by simp, ?_⟩
      exact Path.kept_of_widened Path.touches_of_widens widened touched
    · exact ⟨filter, by simp [back], touched⟩

/-- From one axis to all axes of anything. Another axis lies beside the one, and a change of it counts
only as one of the list above; the wider filter selects it. -/
theorem isAffected_of_widened_to_axes :
    let axis : List Token := [.name "move", .name "axes", .index 1]
    let axes : List Token := [.name "*", .name "axes"]
    let other : Path := [.member "move", .item "axes" 2]
    Relation.ReflTransGen Token.Widens axis axes ∧
      other.isWithin axis = false ∧ isAffected ⟨.patch, [⟨"move.axes[1]", axis⟩]⟩ other = true ∧
      other.isWithin axes = true ∧ isAffected ⟨.patch, [⟨"*.axes", axes⟩]⟩ other = true := by
  intro axis axes other
  have widened : Relation.ReflTransGen Token.Widens axis axes :=
    .tail (.single (.anyName (by decide))) (.later .withoutIndex)
  have affected : isAffected ⟨.patch, [⟨"move.axes[1]", axis⟩]⟩ other = true := by decide
  have still := (isAffected_of_widened widened other).2 .patch [] [] "move.axes[1]" "*.axes" affected
  exact ⟨widened, by decide, affected, by decide, still⟩

end Subscription

end ModelFeed
