import Mathlib.Data.List.Infix
import ModelFeed.Feed.SharedModel
import ModelFeed.Proofs.Members
/-!
# The change log

What a shared model publishes is a log of its store. Every session that changed something adds one
set, the set holds what the session changed and nothing else, and its number counts all changes made
so far. A receiver that keeps up gets every set, once and in order.

Sessions are compared with what their mutations do one after the other (`Store.after` and
`Store.successes`). The induction over the sessions is made once, in `SharedModel.writeAll_eq`. That
the numbers count the successes is because a mutation that fails leaves the store as it is. What the
sets hold in between follows from the log alone (`Numbered`), and what a receiver has got follows
from an invariant of its own (`Receiver.Complete`).
-/

namespace ModelFeed

/-! ### Mutations -/

namespace Mutation

/-- The path that a mutation reports, if it succeeds. -/
def reported? (mutation : Mutation) (store : Store) : Option Path :=
  match (mutation.apply store).2 with
  | .ok path => path
  | .error _ => none

/-- Whether a path may be reported for a mutation: the path it was given, with an index for an item
that was appended, or with the spelling found for a variable that was removed. -/
def Reports : Mutation → Path → Prop
  | .set path _, changed => changed = path
  | .push path _, changed =>
    ∃ parents name index, path = parents ++ [.member name] ∧ changed = parents ++ [.item name index]
  | .setGlobal name _, changed => changed = [.member Store.globals, .member name]
  | .removeGlobal name, changed =>
    ∃ key, sameName key name = true ∧ changed = [.member Store.globals, .member key]

variable {mutation : Mutation} {store next : Store} {path : Path}

theorem apply_of_reported (h : mutation.reported? store = some path) :
    mutation.apply store = ((mutation.apply store).1, .ok (some path)) := by
  unfold reported? at h
  split at h
  next answered => rw [← h, ← answered]
  next => cases h

theorem apply_of_unreported (h : mutation.reported? store = none) :
    (mutation.apply store).1 = store := by
  have whole : mutation.apply store = ((mutation.apply store).1, (mutation.apply store).2) := rfl
  refine eq_of_unreported whole fun path answered => ?_
  rw [reported?, answered] at h
  cases h

/-- A mutation that succeeds counts, and reports a path of its own. -/
theorem reports_of_apply (h : mutation.apply store = (next, .ok (some path))) :
    mutation.Reports path ∧ next.sequence = store.sequence + 1 := by
  cases mutation with
  | set path value =>
    obtain ⟨parents, last, -, reported, -, counted⟩ := Store.set_eq_ok (eq_ok_of_map_some h)
    exact ⟨reported, counted⟩
  | push path item =>
    obtain ⟨parents, name, ended, reported, -, counted⟩ := Store.push_eq_ok (eq_ok_of_map_some h)
    exact ⟨⟨parents, name, _, ended, reported⟩, counted⟩
  | setGlobal name value =>
    have done : store.set [.member Store.globals, .member name] value = (next, .ok path) :=
      eq_ok_of_map_some h
    obtain ⟨parents, last, -, reported, -, counted⟩ := Store.set_eq_ok done
    exact ⟨reported, counted⟩
  | removeGlobal name =>
    obtain ⟨entries, key, -, located, reported, -, counted⟩ :=
      Store.removeGlobal_eq_some (eq_some_of_map_ok h)
    exact ⟨⟨key, Entries.sameName_of_findKey? located, reported⟩, counted⟩

end Mutation

namespace Store

/-- The store after mutations. -/
def after (store : Store) (mutations : List Mutation) : Store :=
  mutations.foldl (fun store mutation => (mutation.apply store).1) store

/-- The mutations that succeed, with the paths that they report. -/
def successes : Store → List Mutation → List (Mutation × Path)
  | _, [] => []
  | store, mutation :: mutations =>
    (mutation.reported? store).toList.map (fun path => (mutation, path)) ++
      successes (mutation.apply store).1 mutations

variable (store : Store)

theorem after_append (front back : List Mutation) :
    store.after (front ++ back) = (store.after front).after back :=
  List.foldl_append

theorem after_cons (mutation : Mutation) (mutations : List Mutation) :
    store.after (mutation :: mutations) = (mutation.apply store).1.after mutations := rfl

theorem successes_append (front back : List Mutation) :
    store.successes (front ++ back) =
      store.successes front ++ (store.after front).successes back := by
  induction front generalizing store with
  | nil => rfl
  | cons mutation front ih =>
    rw [List.cons_append, successes, successes, ih, after_cons, List.append_assoc]

/-- The store counts the successes, since a mutation that fails leaves the number as it is. -/
theorem sequence_after (mutations : List Mutation) :
    (store.after mutations).sequence = store.sequence + (store.successes mutations).length := by
  induction mutations generalizing store with
  | nil => rfl
  | cons mutation mutations ih =>
    rw [after_cons, ih, successes, List.length_append, List.length_map]
    cases reported : mutation.reported? store with
    | none => simp [Mutation.apply_of_unreported reported]
    | some path =>
      have counted := (Mutation.reports_of_apply (Mutation.apply_of_reported reported)).2
      rw [counted, Option.toList_some, List.length_singleton]
      omega

theorem reports_of_mem_successes {mutations : List Mutation} {entry : Mutation × Path}
    (member : entry ∈ store.successes mutations) : entry.1.Reports entry.2 := by
  induction mutations generalizing store with
  | nil => cases member
  | cons mutation mutations ih =>
    rw [successes, List.mem_append, List.mem_map] at member
    rcases member with ⟨path, own, rfl⟩ | later
    · exact (Mutation.reports_of_apply (Mutation.apply_of_reported (Option.mem_toList.mp own))).1
    · exact ih _ later

end Store

/-! ### Sessions -/

namespace WriteSession

variable {session : WriteSession} {mutation : Mutation}

/-- A session goes on with the store that a mutation leaves, and records what it reports. -/
theorem apply_eq (session : WriteSession) (mutation : Mutation) :
    (session.apply mutation).1 = ⟨(mutation.apply session.store).1,
        session.changes ++ (mutation.reported? session.store).toList⟩ ∧
      (session.apply mutation).2.changed = (mutation.reported? session.store).isSome := by
  unfold apply Mutation.reported?
  split <;> simp_all [Outcome.changed]

/-- A mutation that fails, or finds nothing to remove, leaves the session as it is. -/
theorem apply_of_unchanged (h : (session.apply mutation).2.changed = false) :
    (session.apply mutation).1 = session := by
  obtain ⟨left, told⟩ := session.apply_eq mutation
  have unreported : mutation.reported? session.store = none := by simpa [told] using h
  rw [left, Mutation.apply_of_unreported unreported, unreported, Option.toList_none,
    List.append_nil]

/-- A session ends with the store after its mutations, and has recorded their successes. -/
theorem applyAll_eq (session : WriteSession) (mutations : List Mutation) :
    (session.applyAll mutations).1 = ⟨session.store.after mutations,
      session.changes ++ (session.store.successes mutations).map Prod.snd⟩ := by
  induction mutations generalizing session with
  | nil => simp [applyAll, Store.after, Store.successes]
  | cons mutation mutations ih =>
    simp only [applyAll, ih, (session.apply_eq mutation).1, Store.after_cons, Store.successes,
      List.map_append, List.map_map, Function.comp_def, List.map_id', List.append_assoc]

/-- The successes are the mutations that the writer is told have changed something. -/
theorem successes_eq_filter (session : WriteSession) (mutations : List Mutation) :
    (session.store.successes mutations).map Prod.fst =
      ((mutations.zip (session.applyAll mutations).2).filter fun told => told.2.changed).map
        Prod.fst := by
  induction mutations generalizing session with
  | nil => rfl
  | cons mutation mutations ih =>
    obtain ⟨left, told⟩ := session.apply_eq mutation
    have later := ih (session.apply mutation).1
    rw [left] at later
    simp only [applyAll, Store.successes, List.zip_cons_cons, List.filter_cons, told, left,
      List.map_append, later]
    cases mutation.reported? session.store <;> rfl

end WriteSession

/-! ### The sets -/

namespace Store

/-- The change set of a session, if one of its mutations succeeds. -/
def changeSet? (store : Store) (mutations : List Mutation) : Option ChangeSet :=
  let changes := (store.successes mutations).map Prod.snd
  if changes.isEmpty then none else some ⟨store.sequence + changes.length, changes⟩

/-- The change sets of sessions. -/
def changeSets : Store → List (List Mutation) → List ChangeSet
  | _, [] => []
  | store, mutations :: sessions =>
    (store.changeSet? mutations).toList ++ changeSets (store.after mutations) sessions

theorem changes_changeSet? (store : Store) (mutations : List Mutation) :
    (store.changeSet? mutations).toList.flatMap ChangeSet.changes =
      (store.successes mutations).map Prod.snd := by
  simp only [changeSet?]
  split
  next silent =>
    rw [List.isEmpty_iff.mp silent]
    rfl
  next => simp

/-- The sets hold the successes of all sessions, once and in order. -/
theorem changes_changeSets (store : Store) (sessions : List (List Mutation)) :
    (store.changeSets sessions).flatMap ChangeSet.changes =
      (store.successes sessions.flatten).map Prod.snd := by
  induction sessions generalizing store with
  | nil => rfl
  | cons mutations sessions ih =>
    rw [changeSets, List.flatMap_append, changes_changeSet?, ih, List.flatten_cons,
      successes_append, List.map_append]

end Store

/-- Whether sets carry on from a number of changes, each by what it holds. -/
def Numbered : Nat → List ChangeSet → Prop
  | _, [] => True
  | base, set :: sets =>
    set.changes ≠ [] ∧ set.sequence = base + set.changes.length ∧ Numbered set.sequence sets

namespace Numbered

variable {base : Nat} {sets : List ChangeSet} {k : Nat} {set : ChangeSet}

/-- The number of a set counts the changes in it and before it. -/
theorem sequence_eq (numbered : Numbered base sets) (found : sets[k]? = some set) :
    set.sequence = base + ((sets.take (k + 1)).flatMap ChangeSet.changes).length := by
  induction sets generalizing base k with
  | nil => cases found
  | cons first sets ih =>
    obtain ⟨-, counted, later⟩ := numbered
    cases k with
    | zero =>
      cases found
      simpa using counted
    | succ k =>
      rw [ih later found, counted, List.take_succ_cons, List.flatMap_cons, List.length_append]
      omega

/-- From one set to the next the number grows by what the next one holds. -/
theorem sequence_succ {next : ChangeSet} (numbered : Numbered base sets)
    (found : sets[k]? = some set) (follows : sets[k + 1]? = some next) :
    next.sequence = set.sequence + next.changes.length := by
  have taken : sets.take (k + 1 + 1) = sets.take (k + 1) ++ [next] := by
    rw [List.take_add_one, follows, Option.toList_some]
  rw [numbered.sequence_eq follows, numbered.sequence_eq found, taken, List.flatMap_append,
    List.length_append, List.flatMap_singleton]
  omega

end Numbered

theorem numbered_changeSets (store : Store) (sessions : List (List Mutation)) :
    Numbered store.sequence (store.changeSets sessions) := by
  induction sessions generalizing store with
  | nil => trivial
  | cons mutations sessions ih =>
    have later := ih (store.after mutations)
    rw [store.sequence_after mutations] at later
    simp only [Store.changeSets, Store.changeSet?]
    split
    next silent =>
      have nothing : store.successes mutations = [] := by simpa using silent
      simpa [nothing] using later
    next nonempty =>
      refine ⟨by simpa using nonempty, rfl, ?_⟩
      simpa using later

namespace SharedModel

/-- One session publishes its set, if it has one. -/
theorem write_eq (model : SharedModel) (mutations : List Mutation) :
    model.write mutations = ⟨model.store.after mutations,
      model.published ++ (model.store.changeSet? mutations).toList⟩ := by
  simp only [write, session, WriteSession.applyAll_eq, release, List.nil_append, Store.changeSet?,
    Store.sequence_after]
  split <;> simp

/-- Sessions one after the other. -/
def writeAll (model : SharedModel) (sessions : List (List Mutation)) : SharedModel :=
  sessions.foldl write model

theorem writeAll_eq (model : SharedModel) (sessions : List (List Mutation)) :
    model.writeAll sessions = ⟨model.store.after sessions.flatten,
      model.published ++ model.store.changeSets sessions⟩ := by
  induction sessions generalizing model with
  | nil => simp [writeAll, Store.after, Store.changeSets]
  | cons mutations sessions ih =>
    have later := ih (model.write mutations)
    rw [writeAll, List.foldl_cons, ← writeAll, later, write_eq]
    simp only [List.flatten_cons, Store.after_append, Store.changeSets, List.append_assoc]

end SharedModel

/-! ### Receivers -/

/-- What can happen to a receiver of a shared model. -/
inductive ReceiverEvent where
  | write (mutations : List Mutation)
  | receive

/-- The session of an event. -/
def ReceiverEvent.session? : ReceiverEvent → Option (List Mutation)
  | .write mutations => some mutations
  | .receive => none

/-- The changes that a delivery tells of. -/
def Delivery.changed : Delivery → List Path
  | .changes set => set.changes
  | .lagged _ => []

/-- A receiver of a shared model, with what it has got so far. -/
structure Receiver where
  model : SharedModel
  position : Nat
  received : List Delivery := []

namespace Receiver

/-- A receiver that starts now. -/
def start (model : SharedModel) : Receiver :=
  { model, position := model.position }

def step (receiver : Receiver) : ReceiverEvent → Receiver
  | .write mutations => { receiver with model := receiver.model.write mutations }
  | .receive =>
    match receiver.model.receive? receiver.position with
    | none => receiver
    | some (delivery, position) =>
      { receiver with position, received := receiver.received ++ [delivery] }

def run (receiver : Receiver) (events : List ReceiverEvent) : Receiver :=
  events.foldl step receiver

/-- Whether a receiver never falls so far behind that a set is dropped before it is read. -/
def KeepsUp (receiver : Receiver) (events : List ReceiverEvent) : Prop :=
  ∀ front, front <+: events → (receiver.run front).model.published.length ≤
    (receiver.run front).position + SharedModel.capacity

/-- A receiver has got what was published from a place in the log on, or it is still to come. -/
structure Complete (origin : Nat) (receiver : Receiver) : Prop where
  started : origin ≤ receiver.model.published.length
  behind : receiver.position ≤ receiver.model.published.length
  whole : receiver.received ++ (receiver.model.published.drop receiver.position).map .changes =
    (receiver.model.published.drop origin).map .changes

variable {origin : Nat} {receiver : Receiver} {events : List ReceiverEvent}

theorem complete_start (model : SharedModel) : (start model).Complete model.position :=
  ⟨Nat.le_refl _, Nat.le_refl _, rfl⟩

theorem complete_step (complete : receiver.Complete origin)
    (near : receiver.model.published.length ≤ receiver.position + SharedModel.capacity)
    (event : ReceiverEvent) : (receiver.step event).Complete origin := by
  obtain ⟨started, behind, whole⟩ := complete
  cases event with
  | write mutations =>
    simp only [step, SharedModel.write_eq]
    refine ⟨?_, ?_, ?_⟩
    · simp only [List.length_append]
      omega
    · simp only [List.length_append]
      omega
    · simp only [List.drop_append_of_le_length started, List.drop_append_of_le_length behind,
        List.map_append, ← whole, List.append_assoc]
  | receive =>
    -- Nothing was dropped that has not been read, so no lag notice comes.
    have current : ¬receiver.position < receiver.model.oldest := by
      unfold SharedModel.oldest
      omega
    simp only [step]
    cases found : receiver.model.published[receiver.position]? with
    | none =>
      have idle : receiver.model.receive? receiver.position = none := by
        simp [SharedModel.receive?, current, found]
      rw [idle]
      exact ⟨started, behind, whole⟩
    | some set =>
      have next : receiver.model.receive? receiver.position =
          some (.changes set, receiver.position + 1) := by
        simp [SharedModel.receive?, current, found]
      obtain ⟨inside, rfl⟩ := List.getElem?_eq_some_iff.mp found
      rw [next]
      refine ⟨started, inside, ?_⟩
      rw [List.append_assoc, ← whole, List.drop_eq_getElem_cons inside]
      rfl

theorem complete_run (complete : receiver.Complete origin) (near : receiver.KeepsUp events) :
    (receiver.run events).Complete origin := by
  induction events generalizing receiver with
  | nil => exact complete
  | cons event events ih =>
    have now := complete_step complete (near [] List.nil_prefix) event
    exact ih now fun front within => near (event :: front) (List.cons_prefix_cons.mpr ⟨rfl, within⟩)

theorem model_run (receiver : Receiver) (events : List ReceiverEvent) :
    (receiver.run events).model =
      receiver.model.writeAll (events.filterMap ReceiverEvent.session?) := by
  induction events generalizing receiver with
  | nil => rfl
  | cons event events ih =>
    have later := ih (receiver.step event)
    rw [run, List.foldl_cons, ← run, later]
    cases event with
    | write mutations => rfl
    | receive =>
      simp only [step]
      split <;> rfl

/-- What a receiver has got and what waits for it are the sets of the sessions since it started. -/
theorem received_append_waiting (model : SharedModel) (near : (start model).KeepsUp events) :
    ((start model).run events).received ++
        ((start model).run events).model.waiting ((start model).run events).position =
      (model.store.changeSets (events.filterMap ReceiverEvent.session?)).map .changes := by
  obtain ⟨started, behind, whole⟩ := complete_run (complete_start model) near
  have current :
      ¬((start model).run events).position < ((start model).run events).model.oldest := by
    have last := near events List.prefix_rfl
    unfold SharedModel.oldest
    omega
  have reached := Nat.le_of_not_lt current
  rw [SharedModel.waiting, if_neg current, List.nil_append, Nat.max_eq_left reached, whole,
    model_run]
  rw [SharedModel.writeAll_eq]
  simp [start, SharedModel.position]

end Receiver

/-! ### The log as a whole -/

/-- **Change sets are an exact log.** Failed mutations leave no trace; every session publishes its
successes as one set, or nothing if it has none; the sets are numbered by the changes up to their
end; and a receiver that keeps up is told of every success since it started, once and in order. -/
theorem change_sets_exact (store : Store) (sessions : List (List Mutation))
    (events : List ReceiverEvent) :
    let model := SharedModel.writeAll { store } sessions
    let receiver := (Receiver.start model).run events
    let later := events.filterMap ReceiverEvent.session?
    -- Failures
    (∀ (session : WriteSession) (mutation : Mutation),
      (session.apply mutation).2.changed = false → (session.apply mutation).1 = session) ∧
    -- Successes
    (∀ (session : WriteSession) (mutations : List Mutation),
      (session.store.successes mutations).map Prod.fst =
        ((mutations.zip (session.applyAll mutations).2).filter fun told => told.2.changed).map
          Prod.fst ∧
      ∀ success ∈ session.store.successes mutations, success.1.Reports success.2) ∧
    -- Sets
    model.store = store.after sessions.flatten ∧
    model.published = store.changeSets sessions ∧
    -- Numbers
    (∀ k set, model.published[k]? = some set → set.sequence =
      store.sequence + ((model.published.take (k + 1)).flatMap ChangeSet.changes).length) ∧
    (∀ k set next, model.published[k]? = some set → model.published[k + 1]? = some next →
      next.sequence = set.sequence + next.changes.length) ∧
    -- Receivers
    ((Receiver.start model).KeepsUp events →
      receiver.received ++ receiver.model.waiting receiver.position =
        (model.store.changeSets later).map .changes ∧
      (receiver.received ++ receiver.model.waiting receiver.position).flatMap Delivery.changed =
        (model.store.successes later.flatten).map Prod.snd) := by
  intro model receiver later
  have written : model = ⟨store.after sessions.flatten, store.changeSets sessions⟩ :=
    SharedModel.writeAll_eq { store } sessions
  have numbered : Numbered store.sequence model.published := by
    rw [written]
    exact numbered_changeSets store sessions
  refine ⟨fun session mutation => WriteSession.apply_of_unchanged, fun session mutations => ?_,
    by rw [written], by rw [written], fun k set => numbered.sequence_eq,
    fun k set next => numbered.sequence_succ, fun near => ?_⟩
  · exact ⟨session.successes_eq_filter mutations, fun success =>
      session.store.reports_of_mem_successes⟩
  · have told := Receiver.received_append_waiting model near
    refine ⟨told, ?_⟩
    rw [told, List.flatMap_map, ← Store.changes_changeSets]
    rfl

/-- An assignment that is refused. -/
def refusedWrite : Mutation :=
  .set [.member "nowhere"] .null

/-- A variable is set while another write is refused; nothing is found to remove; two are set. -/
def variableSessions : List (List Mutation) :=
  [[.setGlobal "x" (.bool true), refusedWrite], [.removeGlobal "y"],
    [.setGlobal "y" .null, .setGlobal "z" .null]]

/-- A receiver gets one set, and another one waits for it. -/
def variableEvents : List ReceiverEvent :=
  [.write [.removeGlobal "X", .push [.member "state", .member "status"] .null], .receive,
    .write [.push [.member "messages"] Machine.message.new, .setGlobal "y" .null]]

theorem change_sets_exact_of_variables :
    let model := SharedModel.writeAll { store := Store.blank } variableSessions
    let receiver := (Receiver.start model).run variableEvents
    let global (name : String) : Path := [.member "global", .member name]
    (WriteSession.apply { store := Store.blank } refusedWrite).2.changed = false ∧
      (WriteSession.apply { store := Store.blank } refusedWrite).1 = { store := Store.blank } ∧
      Mutation.Reports (.setGlobal "y" .null) (global "y") ∧
      model.published = [⟨1, [global "x"]⟩, ⟨3, [global "y", global "z"]⟩] ∧
      3 = Store.blank.sequence + [global "x", global "y", global "z"].length ∧
      3 = 1 + [global "y", global "z"].length ∧
      (Receiver.start model).KeepsUp variableEvents ∧
      (receiver.received ++ receiver.model.waiting receiver.position).flatMap Delivery.changed =
        [global "x", [.item "messages" 0], global "y"] := by
  intro model receiver global
  obtain ⟨failures, successes, -, published, numbers, steps, receivers⟩ :=
    change_sets_exact Store.blank variableSessions variableEvents
  have refused : (WriteSession.apply { store := Store.blank } refusedWrite).2.changed = false := by
    decide +kernel
  have sets : model.published = [⟨1, [global "x"]⟩, ⟨3, [global "y", global "z"]⟩] :=
    published.trans (by decide +kernel)
  have success : (.setGlobal "y" .null, global "y") ∈
      Store.blank.successes [.setGlobal "y" .null] := List.mem_of_getElem? (i := 0) (by rfl)
  have each : ∀ front ∈ variableEvents.inits,
      ((Receiver.start model).run front).model.published.length ≤
        ((Receiver.start model).run front).position + SharedModel.capacity := by decide +kernel
  have near : (Receiver.start model).KeepsUp variableEvents := fun front within =>
    each front ((List.mem_inits front variableEvents).mpr within)
  have second := numbers 1 ⟨3, [global "y", global "z"]⟩ (by rw [sets]; rfl)
  rw [sets] at second
  have next := steps 0 ⟨1, [global "x"]⟩ ⟨3, [global "y", global "z"]⟩ (by rw [sets]; rfl)
    (by rw [sets]; rfl)
  exact ⟨refused, failures _ _ refused,
    (successes { store := Store.blank } [.setGlobal "y" .null]).2 _ success, sets, second, next,
    near,
    (receivers near).2.trans (by decide +kernel)⟩

end ModelFeed
