import ModelFeed.Feed.SharedModel
import ModelFeed.Proofs.Members
/-!
# What a mutation alters

A successful mutation reports a path, and the model before and after it differ at the end of that
path only: every member beside the path is the same, every item beside it is the same, and what the
path goes through keeps its shape. `altered_of_apply` says so of all four mutations.
-/

namespace ModelFeed

/-- Two nodes of one shape whose members of other names are the same. -/
def Node.AgreeOff (name : String) (before after : Node) : Prop :=
  ∃ ms ns, before.members? = some ms ∧ after.members? = some ns ∧
    ms.filter (fun m => !m.named name) = ns.filter (fun m => !m.named name)

/-- The second node is the first one altered at the end of a path. -/
inductive Altered : Path → Node → Node → Prop where
  /-- At the last step anything may happen behind its name, also that it comes or goes. -/
  | last {step : Step} {before after : Node} (agree : before.AgreeOff step.name after) :
      Altered [step] before after
  | member {name : String} {path : Path} {before after value : Node} {front back : List Member}
      {m : Member} (was : before.members? = some (front ++ m :: back))
      (is : after.members? = some (front ++ { m with value } :: back))
      (named : m.named name = true) (below : Altered path m.value value) :
      Altered (.member name :: path) before after
  | item {list : String} {index : Nat} {path : Path} {before after old new : Node}
      {front back : List Member} {m : Member} {element : ElementKind} {items : List Node}
      (was : before.members? = some (front ++ m :: back))
      (is : after.members? =
        some (front ++ { m with value := .list element (items.set index new) } :: back))
      (named : m.named list = true) (holds : m.value = .list element items)
      (found : items[index]? = some old) (below : Altered path old new) :
      Altered (.item list index :: path) before after

namespace Altered

/-- A member of another name than the altered one is still there. -/
theorem mem_of_agree {ms ns : List Member} {m : Member} {name : String}
    (agree : ms.filter (fun m => !m.named name) = ns.filter (fun m => !m.named name))
    (member : m ∈ ms) (other : m.named name = false) : m ∈ ns := by
  have kept : m ∈ ms.filter fun m => !m.named name := List.mem_filter.mpr ⟨member, by simp [other]⟩
  rw [agree] at kept
  exact (List.mem_filter.mp kept).1

/-- What a path leads through is a structured node or a map, before and after. -/
theorem members {path : Path} {before after : Node} (h : Altered path before after) :
    ∃ ms ns, before.members? = some ms ∧ after.members? = some ns := by
  cases h with
  | last agree =>
    obtain ⟨ms, ns, was, is, -⟩ := agree
    exact ⟨ms, ns, was, is⟩
  | member was is => exact ⟨_, _, was, is⟩
  | item was is => exact ⟨_, _, was, is⟩

end Altered

namespace Node

theorem agreeOff_of_split {name : String} {before after : Node} {front back : List Member}
    {m : Member} {value : Node} (was : before.members? = some (front ++ m :: back))
    (is : after.members? = some (front ++ { m with value } :: back)) (named : m.named name = true) :
    before.AgreeOff name after := by
  have still : Member.named name { m with value } = true := named
  refine ⟨_, _, was, is, ?_⟩
  simp [named, still]

theorem agreeOff_of_modifyMember {name : String} {edit : Edit} {before after : Node}
    (h : before.modifyMember name edit = .ok after) : before.AgreeOff name after := by
  obtain ⟨front, m, back, value, was, is, named, -, -⟩ := modifyMember_eq_ok h
  exact agreeOff_of_split was is named

end Node

theorem Entries.findKey?_getD_named {α : Type} (name : String) (entries : Entries α) :
    sameName ((findKey? name entries).getD name) name = true := by
  cases located : findKey? name entries with
  | none => exact sameName_refl name
  | some key => exact sameName_of_findKey? located

theorem Entries.filter_insert {α : Type} {p : String × α → Bool} {key : String} {value : α}
    (ignored : ∀ v, p (key, v) = false) (entries : Entries α) :
    (insert key value entries).filter p = entries.filter p := by
  induction entries with
  | nil => simp [insert, ignored]
  | cons entry entries ih =>
    obtain ⟨k, v⟩ := entry
    by_cases same : k = key
    · subst same
      simp [insert, ignored]
    · simp [insert, same, List.filter_cons, ih]

namespace Node

/-- Only a structured node checks what is assigned, and of two properties of a name the first one
takes it. -/
theorem assign_structured_eq_ok {name : String} {value after : Node} {schema : Schema}
    {values : List Node} (h : assign name value (.structured schema values) = .ok after) :
    ∃ front m back new, (structured schema values).members? = some (front ++ m :: back) ∧
      after.members? = some (front ++ { m with value := new } :: back) ∧ m.named name = true := by
  obtain ⟨changed, done, rfl⟩ := setField_structured_eq_ok h
  obtain ⟨front, property, old, back, new, was, is, named, -, -⟩ := modifyField_eq_ok done
  refine ⟨front.map .ofField, .ofField (property, old), back.map .ofField, new, ?_, ?_, named⟩
  · simp [members?, was]
  · simp [members?, is, Member.ofField]

theorem agreeOff_of_assign {name : String} {value before after : Node}
    (h : assign name value before = .ok after) : before.AgreeOff name after := by
  cases before with
  | structured schema values =>
    obtain ⟨front, m, back, new, was, is, named⟩ := assign_structured_eq_ok h
    exact agreeOff_of_split was is named
  | map entries =>
    simp only [assign, Except.ok.injEq] at h
    subst h
    refine ⟨_, _, rfl, rfl, ?_⟩
    rw [List.filter_map, List.filter_map, Entries.filter_insert]
    -- A key that is there already may be spelled otherwise, but it is of the same name.
    intro v
    have named := Entries.findKey?_getD_named name entries
    simp [Member.ofEntry, Member.named, named]
  | _ => simp [assign, setField] at h

end Node

/-! ### The four mutations -/

theorem altered_of_replaceChild {step : Step} {value before after : Node}
    (h : Node.replaceChild step value before = .ok after) : Altered [step] before after := by
  apply Altered.last
  cases step with
  | member name => exact Node.agreeOff_of_assign h
  | item list index => exact Node.agreeOff_of_modifyMember h

theorem altered_of_modifyChild {step : Step} {path : Path} {edit : Edit} {before after : Node}
    (edits : ∀ old new, edit old = .ok new → Altered path old new)
    (h : before.modifyChild step edit = .ok after) : Altered (step :: path) before after := by
  cases step with
  | member name =>
    obtain ⟨front, m, back, value, was, is, named, edited, -⟩ := Node.modifyMember_eq_ok h
    exact .member was is named (edits m.value value edited)
  | item list index =>
    obtain ⟨front, m, back, element, items, old, new, was, is, named, holds, found, edited, -⟩ :=
      Node.modifyItem_eq_ok h
    exact .item was is named holds found (edits old new edited)

theorem altered_of_modifyAt {parents path : Path} {edit : Edit} {before after : Node}
    (edits : ∀ old new, edit old = .ok new → Altered path old new)
    (h : before.modifyAt parents edit = .ok after) : Altered (parents ++ path) before after := by
  induction parents generalizing before after with
  | nil => exact edits before after h
  | cons step parents ih => exact altered_of_modifyChild (fun old new => ih) h

/-- A mutation that reports a path is one of three: setting a variable is an assignment. -/
theorem Mutation.apply_cases {mutation : Mutation} {store after : Store} {changed : Path}
    (h : mutation.apply store = (after, .ok (some changed))) :
    (∃ path value, store.set path value = (after, .ok changed)) ∨
      (∃ path item, store.push path item = (after, .ok changed)) ∨
      ∃ name, store.removeGlobal name = (after, some changed) := by
  cases mutation with
  | set path value => exact .inl ⟨path, value, eq_ok_of_map_some h⟩
  | push path item => exact .inr (.inl ⟨path, item, eq_ok_of_map_some h⟩)
  | setGlobal name value =>
    exact .inl ⟨[.member Store.globals, .member name], value, eq_ok_of_map_some h⟩
  | removeGlobal name => exact .inr (.inr ⟨name, eq_some_of_map_ok h⟩)

/-- A successful mutation alters the model at the end of the path that it reports. -/
theorem altered_of_apply {mutation : Mutation} {store after : Store} {changed : Path}
    (h : mutation.apply store = (after, .ok (some changed))) :
    Altered changed store.root after.root := by
  obtain ⟨path, value, done⟩ | ⟨path, item, done⟩ | ⟨name, done⟩ := Mutation.apply_cases h
  · obtain ⟨parents, last, rfl, rfl, edited, -⟩ := Store.set_eq_ok done
    exact altered_of_modifyAt (fun _ _ => altered_of_replaceChild) edited
  · obtain ⟨parents, name, -, rfl, edited, -⟩ := Store.push_eq_ok done
    refine altered_of_modifyAt (fun old new pushed => ?_) edited
    exact .last (Node.agreeOff_of_modifyMember pushed)
  · obtain ⟨entries, key, held, -, rfl, edited, -⟩ := Store.removeGlobal_eq_some done
    obtain ⟨front, m, back, value, was, is, named, erased, looked⟩ := Node.modifyMember_eq_ok edited
    -- The map that was looked up is the one that loses an entry.
    rw [held, Option.some.injEq] at looked
    cases erased
    refine .member was is named (.last ?_)
    rw [← looked]
    refine ⟨_, _, rfl, rfl, ?_⟩
    rw [List.filter_map, List.filter_map, Entries.erase, List.filter_filter]
    congr 1
    apply List.filter_congr
    rintro ⟨k, v⟩ -
    by_cases same : k = key <;>
      simp [same, Member.ofEntry, Member.named, Step.name, Function.comp]

end ModelFeed
