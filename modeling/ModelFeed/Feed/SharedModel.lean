import ModelFeed.Store
/-!
# The shared model

A write session locks the store, applies mutations one after the other and then publishes what it
changed as one change set; a session that changed nothing publishes nothing. Every reader has its
own position in the log of these sets. The log retains the last 1024 of them: a reader that fell
further behind is told once how many it missed and goes on with the oldest one retained.
-/

namespace ModelFeed

inductive Mutation where
  | set (path : Path) (value : Node)
  | push (path : Path) (item : Node)
  | setGlobal (name : String) (value : Node)
  | removeGlobal (name : String)

/-- The store after a mutation. Beside it stands the changed path, or nothing if there was nothing to
remove, or the reason of a refusal. -/
def Mutation.apply (store : Store) : Mutation → Store × Except ModelError (Option Path)
  | .set path value => Prod.map id (Except.map some) (store.set path value)
  | .push path item => Prod.map id (Except.map some) (store.push path item)
  | .setGlobal name value => Prod.map id (Except.map some) (store.setGlobal name value)
  | .removeGlobal name => Prod.map id Except.ok (store.removeGlobal name)

namespace Mutation

variable {store after : Store} {changed : Path}

theorem eq_ok_of_map_some {result : Store × Except ModelError Path}
    (h : Prod.map id (Except.map some) result = (after, .ok (some changed))) :
    result = (after, .ok changed) := by
  obtain ⟨left, answer⟩ := result
  cases answer with
  | error error => cases h
  | ok path =>
    cases h
    rfl

theorem eq_some_of_map_ok {result : Store × Option Path}
    (h : Prod.map id Except.ok result = ((after, .ok (some changed)) :
      Store × Except ModelError (Option Path))) : result = (after, some changed) := by
  obtain ⟨left, answer⟩ := result
  cases h
  rfl

theorem eq_error_of_map_some {result : Store × Except ModelError Path}
    {answer : Except ModelError (Option Path)} (silent : ∀ path, answer ≠ .ok (some path))
    (h : Prod.map id (Except.map some) result = (after, answer)) :
    ∃ error, result = (after, .error error) := by
  obtain ⟨left, own⟩ := result
  cases own with
  | error error =>
    cases h
    exact ⟨error, rfl⟩
  | ok path =>
    cases h
    exact absurd rfl (silent path)

/-- **A mutation that reports no path leaves the store as it is**, whether it was refused or found
nothing to remove. -/
theorem eq_of_unreported {mutation : Mutation} {answer : Except ModelError (Option Path)}
    (h : mutation.apply store = (after, answer)) (silent : ∀ path, answer ≠ .ok (some path)) :
    after = store := by
  cases mutation with
  | set path value =>
    obtain ⟨error, refused⟩ := eq_error_of_map_some silent h
    exact Store.set_of_error refused
  | push path item =>
    obtain ⟨error, refused⟩ := eq_error_of_map_some silent h
    exact Store.push_of_error refused
  | setGlobal name value =>
    obtain ⟨error, refused⟩ : ∃ error,
        store.set [.member Store.globals, .member name] value = (after, .error error) :=
      eq_error_of_map_some silent h
    exact Store.set_of_error refused
  | removeGlobal name =>
    cases removed : store.removeGlobal name with
    | mk left result =>
      simp only [apply, removed] at h
      cases h
      cases result with
      | none => exact Store.removeGlobal_of_none removed
      | some path => exact absurd rfl (silent path)

end Mutation

/-- What one write session changed. -/
structure ChangeSet where
  /-- The number of mutations applied up to the end of the session. -/
  sequence : Nat
  changes : List Path
deriving DecidableEq, Repr

/-- A session that holds the lock: the store and the paths changed so far. -/
structure WriteSession where
  store : Store
  changes : List Path := []

/-- Whether a mutation changed the store, or why it was refused. -/
abbrev Outcome := Except ModelError Bool

def Outcome.changed : Outcome → Bool
  | .ok changed => changed
  | .error _ => false

def WriteSession.apply (session : WriteSession) (mutation : Mutation) : WriteSession × Outcome :=
  match mutation.apply session.store with
  | (store, .error error) => ({ session with store }, .error error)
  | (store, .ok none) => ({ session with store }, .ok false)
  | (store, .ok (some path)) => (⟨store, session.changes ++ [path]⟩, .ok true)

def WriteSession.applyAll (session : WriteSession) :
    List Mutation → WriteSession × List Outcome
  | [] => (session, [])
  | mutation :: mutations =>
    let (session, outcome) := session.apply mutation
    let (session, outcomes) := session.applyAll mutations
    (session, outcome :: outcomes)

/-- A mutation that reports a path is recorded by it. Any other one leaves the session as it is. -/
theorem WriteSession.apply_cases (session : WriteSession) (mutation : Mutation) :
    (∃ store path, mutation.apply session.store = (store, .ok (some path)) ∧
      session.apply mutation = (⟨store, session.changes ++ [path]⟩, .ok true)) ∨
    (session.apply mutation).1 = session := by
  unfold WriteSession.apply
  split
  next store error refused =>
    obtain rfl := Mutation.eq_of_unreported refused nofun
    exact .inr rfl
  next store nothing =>
    obtain rfl := Mutation.eq_of_unreported nothing nofun
    exact .inr rfl
  next store path reported => exact .inl ⟨store, path, reported, rfl⟩

/-- The shared model with the sets published so far, oldest first. -/
structure SharedModel where
  store : Store
  published : List ChangeSet := []

namespace SharedModel

/-- How many sets the log retains. The number stays folded, lest a difference from it be counted
down. -/
@[irreducible] def capacity : Nat := 1024

/-- Ends a session. -/
def release (model : SharedModel) (session : WriteSession) : SharedModel :=
  if session.changes.isEmpty then { model with store := session.store }
  else ⟨session.store, model.published ++ [⟨session.store.sequence, session.changes⟩]⟩

/-- Applies mutations in a session that starts now. -/
def session (model : SharedModel) (mutations : List Mutation) : WriteSession × List Outcome :=
  WriteSession.applyAll { store := model.store } mutations

/-- One write session, from taking the lock to releasing it. -/
def write (model : SharedModel) (mutations : List Mutation) : SharedModel :=
  model.release (model.session mutations).1

/-- The position of a reader that starts now. -/
def position (model : SharedModel) : Nat :=
  model.published.length

end SharedModel

inductive Delivery where
  | changes (set : ChangeSet)
  /-- So many sets are no longer retained. -/
  | lagged (missed : Nat)
deriving DecidableEq, Repr

namespace SharedModel

/-- The oldest position that is retained. -/
def oldest (model : SharedModel) : Nat :=
  model.published.length - capacity

/-- The next delivery to a reader, with its new position. -/
def receive? (model : SharedModel) (position : Nat) : Option (Delivery × Nat) :=
  if position < model.oldest then
    some (.lagged (model.oldest - position), model.oldest)
  else model.published[position]?.map fun set => (.changes set, position + 1)

/-- Everything that waits for a reader. -/
def waiting (model : SharedModel) (position : Nat) : List Delivery :=
  let lag :=
    if position < model.oldest then [.lagged (model.oldest - position)] else []
  lag ++ (model.published.drop (max position model.oldest)).map .changes

theorem oldest_le_length (model : SharedModel) : model.oldest ≤ model.published.length :=
  Nat.sub_le ..

/-- A delivery is the first of what waits. -/
theorem waiting_eq_cons {model : SharedModel} {position next : Nat} {delivery : Delivery}
    (h : model.receive? position = some (delivery, next)) :
    model.waiting position = delivery :: model.waiting next := by
  unfold receive? at h
  by_cases lags : position < model.oldest
  · simp only [lags, if_true, Option.some.injEq, Prod.mk.injEq] at h
    obtain ⟨rfl, rfl⟩ := h
    simp [waiting, lags, Nat.max_eq_right (Nat.le_of_lt lags)]
  · simp only [lags, if_false, Option.map_eq_some_iff, Prod.mk.injEq] at h
    obtain ⟨set, found, rfl, rfl⟩ := h
    obtain ⟨inside, rfl⟩ := List.getElem?_eq_some_iff.1 found
    have reached : model.oldest ≤ position := Nat.le_of_not_lt lags
    have next : model.oldest ≤ position + 1 := Nat.le_succ_of_le reached
    simp only [waiting, if_neg lags, if_neg (Nat.not_lt.2 next), Nat.max_eq_left reached,
      Nat.max_eq_left next, List.nil_append]
    rw [List.drop_eq_getElem_cons inside, List.map_cons]

/-- Where there is no delivery, nothing waits. -/
theorem waiting_eq_nil {model : SharedModel} {position : Nat}
    (h : model.receive? position = none) : model.waiting position = [] := by
  unfold receive? at h
  by_cases lags : position < model.oldest
  · simp [lags] at h
  · simp only [lags, if_false, Option.map_eq_none_iff, List.getElem?_eq_none_iff] at h
    simp [waiting, lags, Nat.le_trans h (Nat.le_max_left ..)]

/-- Nothing waits for a reader that starts now. -/
theorem waiting_position (model : SharedModel) : model.waiting model.position = [] := by
  simp [waiting, position, oldest_le_length]

end SharedModel

end ModelFeed
