import Mathlib.Data.List.Infix
import Mathlib.Data.List.Permutation
import ModelFeed.Feed.Connection
import ModelFeed.Proofs.Unaffected
/-!
# Full mode catches up

A change set is handled later than the writes it tells of, against a newer store, and perhaps for
another subscription than the one in force when it was published; sets may even be dropped. Still a
client in full mode has the current view as soon as nothing waits for it.

The invariant that carries this over every step is `Service.InStep`: the last payload sent is the
current view, or something waits that will make the connection send it again. It holds because a
session whose changes affect nothing leaves the view alone (`applyAll_view`), and because a set that
is no longer retained leaves a lag notice in its place (`concerned_of_publish`).
-/

namespace ModelFeed

/-- The model that a frame carries. -/
def Sent.payload? : Sent → Option Json
  | .message (.update _ _ model) => some model
  | _ => none

/-- The payload of the last model message. -/
def lastPayload? (sent : List Sent) : Option Json :=
  (sent.filterMap Sent.payload?).getLast?

theorem lastPayload?_append (sent more : List Sent) :
    lastPayload? (sent ++ more) = (lastPayload? more).or (lastPayload? sent) := by
  rw [lastPayload?, List.filterMap_append, List.getLast?_append]
  rfl

/-- Whether a subscription in full mode answers a delivery by its view. -/
def Delivery.concerns (s : Subscription) : Delivery → Bool
  | .changes set => set.changes.any s.isAffected
  | .lagged _ => true

/-! ### Write sessions -/

namespace WriteSession

/-- A session only adds to what it has recorded. -/
theorem applyAll_changes (session : WriteSession) (mutations : List Mutation) :
    ∃ changes, (session.applyAll mutations).1.changes = session.changes ++ changes := by
  induction mutations generalizing session with
  | nil => exact ⟨[], (List.append_nil _).symm⟩
  | cons mutation mutations ih =>
    obtain ⟨later, recorded⟩ := ih (session.apply mutation).1
    have first : ∃ changes, (session.apply mutation).1.changes = session.changes ++ changes := by
      rcases session.apply_cases mutation with ⟨store, path, -, recorded⟩ | unchanged
      · exact ⟨[path], by rw [recorded]⟩
      · exact ⟨[], by rw [unchanged, List.append_nil]⟩
    obtain ⟨now, added⟩ := first
    exact ⟨now ++ later, by simp only [applyAll, recorded, added, List.append_assoc]⟩

/-- Over a session that changes nothing for a subscription its view stays. -/
theorem applyAll_view (s : Subscription) (session : WriteSession) (mutations : List Mutation)
    (flat : s.FlatFor session.store.root) :
    ∃ changes, (session.applyAll mutations).1.changes = session.changes ++ changes ∧
      (changes.any s.isAffected = false →
        s.view (session.applyAll mutations).1.store.root = s.view session.store.root) := by
  induction mutations generalizing session with
  | nil => exact ⟨[], (List.append_nil _).symm, fun _ => rfl⟩
  | cons mutation mutations ih =>
    simp only [applyAll]
    rcases session.apply_cases mutation with ⟨store, path, applied, recorded⟩ | unchanged
    · rw [recorded]
      have altered := altered_of_apply applied
      by_cases affected : s.isAffected path = true
      · -- The set will be noticed, so the session may do what it likes from here on.
        obtain ⟨changes, recorded⟩ := applyAll_changes ⟨store, session.changes ++ [path]⟩ mutations
        refine ⟨path :: changes, by simp [recorded], fun quiet => ?_⟩
        simp [affected] at quiet
      · have unaffected : s.isAffected path = false := by simpa using affected
        have still := (s.project?_eq_of_unaffected altered unaffected flat).2
        obtain ⟨changes, recorded, same⟩ := ih ⟨store, session.changes ++ [path]⟩ still
        refine ⟨path :: changes, by simp [recorded], fun quiet => ?_⟩
        simp only [List.any_cons, unaffected, Bool.false_or] at quiet
        rw [same quiet]
        exact s.view_eq_of_unaffected altered unaffected flat
    · rw [unchanged]
      exact ih session flat

end WriteSession

/-! ### The log -/

namespace SharedModel

theorem capacity_pos : 0 < capacity := by
  unfold capacity
  decide

/-- A reader that has not overtaken the log will be told of what is published next. -/
theorem changes_mem_waiting_publish {model : SharedModel} {position : Nat} (store : Store)
    (set : ChangeSet) (behind : position ≤ model.published.length) :
    .changes set ∈ waiting ⟨store, model.published ++ [set]⟩ position := by
  have positive := capacity_pos
  have oldest : max position (oldest ⟨store, model.published ++ [set]⟩) ≤
      model.published.length := by
    simp only [SharedModel.oldest, List.length_append, List.length_singleton]
    omega
  simp only [waiting, List.mem_append, List.mem_map]
  right
  refine ⟨set, ?_, rfl⟩
  rw [List.drop_append_of_le_length oldest]
  exact List.mem_append_right _ (List.mem_singleton_self set)

/-- What made a delivery concern a subscription is still there after a publication: the delivery
waits on, or it has been dropped and a lag notice waits instead. -/
theorem concerned_of_publish {model : SharedModel} {position : Nat} {s : Subscription}
    (store : Store) (set : ChangeSet)
    (waits : ∃ delivery ∈ model.waiting position, delivery.concerns s = true) :
    ∃ delivery ∈ waiting ⟨store, model.published ++ [set]⟩ position,
      delivery.concerns s = true := by
  obtain ⟨delivery, member, concerns⟩ := waits
  by_cases lags : position < oldest ⟨store, model.published ++ [set]⟩
  · -- The oldest set is dropped, and a lag notice takes its place.
    refine ⟨.lagged (oldest ⟨store, model.published ++ [set]⟩ - position), ?_, rfl⟩
    simp [waiting, lags]
  · -- Nothing that waits is dropped yet.
    have older : model.oldest ≤ oldest ⟨store, model.published ++ [set]⟩ := by
      simp only [oldest, List.length_append, List.length_singleton]
      omega
    have current : ¬position < model.oldest := by omega
    refine ⟨delivery, ?_, concerns⟩
    rw [waiting, if_neg current, List.nil_append, Nat.max_eq_left (by omega)] at member
    rw [waiting, if_neg lags, List.nil_append, Nat.max_eq_left (by omega)]
    obtain ⟨published, kept, rfl⟩ := List.mem_map.mp member
    refine List.mem_map_of_mem ?_
    rw [List.drop_append]
    exact List.mem_append_left _ kept

theorem position_le_of_receive? {model : SharedModel} {position next : Nat} {delivery : Delivery}
    (h : model.receive? position = some (delivery, next)) : next ≤ model.published.length := by
  unfold receive? at h
  split at h
  next =>
    cases h
    exact model.oldest_le_length
  next =>
    simp only [Option.map_eq_some_iff, Prod.mk.injEq] at h
    obtain ⟨set, found, -, rfl⟩ := h
    exact (List.getElem?_eq_some_iff.mp found).1

end SharedModel

/-! ### The connection -/

namespace Service

/-- A client that has just connected, to a model with any history. -/
def start (defaults : List Filter) (model : SharedModel) : Service :=
  { defaults, model, connection := { position := model.position } }

/-- The client in full mode has the current view, or something waits that will bring it. -/
structure InStep (service : Service) (last : Option Json) : Prop where
  behind : service.connection.position ≤ service.model.published.length
  fresh : ∀ s, service.connection.subscription = some s → s.mode = .full →
    last = some (s.view service.model.store.root).toJson ∨
      ∃ delivery ∈ service.model.waiting service.connection.position, delivery.concerns s = true

theorem inStep_start (defaults : List Filter) (model : SharedModel) :
    (start defaults model).InStep none :=
  ⟨Nat.le_refl _, fun _ none => nomatch none⟩

variable {service : Service} {last : Option Json}

theorem inStep_write (inv : service.InStep last) (mutations : List Mutation)
    (flat : service.model.store.root.hasFlatLists = true) :
    InStep { service with model := service.model.write mutations } last := by
  obtain ⟨behind, fresh⟩ := inv
  constructor
  · simp only [SharedModel.write, SharedModel.release]
    split
    next => exact behind
    next => simp only [List.length_append]; omega
  · intro s subscribed full
    obtain ⟨changes, recorded, same⟩ := WriteSession.applyAll_view s
      { store := service.model.store } mutations (s.flatFor_of_hasFlatLists flat)
    rw [List.nil_append] at recorded
    simp only [SharedModel.write, SharedModel.release, SharedModel.session, recorded]
    by_cases silent : changes.isEmpty = true
    · -- Nothing is published.
      obtain rfl := List.isEmpty_iff.mp silent
      simp only [List.isEmpty_nil, if_true, same rfl]
      exact fresh s subscribed full
    · rw [if_neg silent]
      by_cases noticed : changes.any s.isAffected = true
      · -- The set that is published is itself what the client waits for.
        right
        exact ⟨_, SharedModel.changes_mem_waiting_publish _ _ behind, noticed⟩
      · -- The view is as it was, and so is the reason why the client is in step.
        rw [same (by simpa using noticed)]
        exact (fresh s subscribed full).imp_right (SharedModel.concerned_of_publish _ _)

/-- Every answer to an accepted subscription is the view of that subscription. -/
theorem inStep_frame (inv : service.InStep last) (frame : Frame) :
    InStep { service with
        connection := (service.connection.onFrame service.defaults service.model.store frame).1 }
      ((lastPayload?
        (service.connection.onFrame service.defaults service.model.store frame).2).or last) := by
  cases frame with
  | binary => exact inv
  | ping payload => exact inv
  | pong payload => exact inv
  | close => exact ⟨inv.behind, inv.fresh⟩
  | text content =>
    simp only [Connection.onFrame]
    cases ClientMessage.decode content with
    | error error => cases error <;> exact inv
    | ok request =>
      cases request with
      | query path restrictedOnly =>
        have unsent : lastPayload? [.message (Connection.answerQuery service.model.store path
            restrictedOnly)] = none := by
          unfold Connection.answerQuery
          split <;> rfl
        simp only [Connection.onRequest, unsent, Option.none_or]
        exact inv
      | subscribe mode filters =>
        simp only [Connection.onRequest]
        -- Whatever the client waited for before, a granted request is answered with the view.
        cases Connection.requested service.defaults mode filters with
        | error error => exact inv
        | ok subscription =>
          refine ⟨inv.behind, fun s subscribed _ => .inl ?_⟩
          cases subscribed
          rfl

/-- What a subscription in full mode sends on a delivery is its view, and nothing if the delivery
does not concern it. -/
theorem payload_of_delivery {s : Subscription} (full : s.mode = .full) (store : Store)
    (delivery : Delivery) :
    ((Connection.onDelivery store s delivery).map Sent.message).bind Sent.payload? =
      if delivery.concerns s then some (s.view store.root).toJson else none := by
  cases delivery with
  | lagged missed => rfl
  | changes set =>
    simp only [Connection.onDelivery, Subscription.update?, full]
    by_cases noticed : set.changes.any s.isAffected = true
    · rw [if_pos noticed, if_pos (show Delivery.concerns s (.changes set) = true from noticed)]
      rfl
    · rw [if_neg noticed, if_neg (show ¬Delivery.concerns s (.changes set) = true from noticed)]
      rfl

theorem inStep_receive (inv : service.InStep last) :
    InStep { service with connection := (service.connection.receive service.model).1 }
      ((lastPayload? (service.connection.receive service.model).2).or last) := by
  cases next : service.model.receive? service.connection.position with
  | none =>
    have idle : service.connection.receive service.model = (service.connection, []) := by
      simp [Connection.receive, next]
    rw [idle]
    exact inv
  | some delivered =>
    obtain ⟨delivery, position⟩ := delivered
    rw [Connection.receive_eq next]
    refine ⟨SharedModel.position_le_of_receive? next, fun s subscribed full => ?_⟩
    replace subscribed : service.connection.subscription = some s := subscribed
    have sent := payload_of_delivery full service.model.store delivery
    -- In this mode a delivery that concerns the client carries all it wants to know.
    have payload : lastPayload? (service.connection.onDelivered service.model.store delivery
        position).2 = if delivery.concerns s then some (s.view service.model.store.root).toJson
          else none := by
      rw [← sent]
      simp only [Connection.onDelivered, subscribed, Option.bind_some]
      cases Connection.onDelivery service.model.store s delivery with
      | none => rfl
      | some message => cases message <;> rfl
    rw [payload]
    by_cases concerns : delivery.concerns s = true
    · left
      rw [if_pos concerns, Option.some_or]
    · -- This delivery was not what the client waited for, so that one still waits.
      rw [if_neg concerns, Option.none_or]
      rcases inv.fresh s subscribed full with known | ⟨waits, member, concerned⟩
      · exact .inl known
      · rw [SharedModel.waiting_eq_cons next] at member
        rcases List.mem_cons.mp member with rfl | later
        · exact absurd concerned concerns
        · exact .inr ⟨waits, later, concerned⟩

theorem inStep_step (inv : service.InStep last) (event : Event)
    (flat : service.model.store.root.hasFlatLists = true) :
    (service.step event).1.InStep ((lastPayload? (service.step event).2).or last) := by
  cases event with
  | write mutations => exact inStep_write inv mutations flat
  | frame frame =>
    by_cases listening : service.connection.isOpen = true
    · simp only [step, listening, if_true]
      exact inStep_frame inv frame
    · simp only [step, listening]
      exact inv
  | receive =>
    by_cases listening : service.connection.isOpen = true
    · simp only [step, listening, if_true]
      exact inStep_receive inv
    · simp only [step, listening]
      exact inv

theorem run_cons (service : Service) (event : Event) (events : List Event) :
    (service.run (event :: events)).1 = ((service.step event).1.run events).1 := rfl

theorem inStep_run (inv : service.InStep last) (events : List Event)
    (flat : ∀ front, front <+: events →
      (service.run front).1.model.store.root.hasFlatLists = true) :
    (service.run events).1.InStep ((lastPayload? (service.run events).2).or last) := by
  induction events generalizing service last with
  | nil => exact inv
  | cons event events ih =>
    have now := flat [] (List.nil_prefix)
    have later := ih (inStep_step inv event now) fun front within => by
      rw [← run_cons]
      exact flat (event :: front) (List.cons_prefix_cons.mpr ⟨rfl, within⟩)
    simp only [run, lastPayload?_append]
    rwa [Option.or_assoc]

/-- **Full mode converges.** Whatever writes, frames and deliveries came in whatever order, a client
in full mode for whom nothing waits was last sent the view that its subscription has of the store as
it is now. -/
theorem full_mode_converges (defaults : List Filter) (model : SharedModel) (events : List Event)
    (flat : ∀ front, front <+: events →
      ((start defaults model).run front).1.model.store.root.hasFlatLists = true)
    {s : Subscription}
    (subscribed : ((start defaults model).run events).1.connection.subscription = some s)
    (full : s.mode = .full)
    (idle : ((start defaults model).run events).1.model.waiting
      ((start defaults model).run events).1.connection.position = []) :
    lastPayload? ((start defaults model).run events).2 =
      some (s.view ((start defaults model).run events).1.model.store.root).toJson := by
  have inv := inStep_run (inStep_start defaults model) events flat
  rw [Option.or_none] at inv
  rcases inv.fresh s subscribed full with sent | ⟨delivery, member, -⟩
  · exact sent
  · rw [idle] at member
    cases member

/-- The letters of the axes are asked for, in full mode. -/
def letterRequest : Event :=
  .frame (.text "\x7b\"subscribe\": \"full\", \"filters\": [\"move.axes[*].letter\"]\x7d")

def letters : Subscription :=
  ⟨.full, [⟨"move.axes[*].letter", [.name "move", .name "axes", .index (-1), .name "letter"]⟩]⟩

/-- A machine gets two axes, and one of them a letter; another write is refused. -/
def letterEvents : List Event :=
  [.write [.set [.member "move", .member "axes"] (Machine.axis.newList 2),
      .set [.member "move", .item "axes" 7] .null],
    .write [.set [.member "move", .item "axes" 1, .member "letter"] (.string "Y")],
    .frame .binary, .receive, .receive]

/-- The client whose request for the letters has been accepted. -/
def letterClient : Service where
  model := { store := Store.blank }
  connection := { subscription := some letters, position := 0 }

theorem run_letterRequest (events : List Event) :
    ((start [] { store := Store.blank }).run (letterRequest :: events)).1 =
      (letterClient.run events).1 := by
  have decoded : ClientMessage.decode
      "\x7b\"subscribe\": \"full\", \"filters\": [\"move.axes[*].letter\"]\x7d" =
      .ok (.subscribe .full ["move.axes[*].letter"]) := by cbv
  have accepted : Connection.requested [] .full ["move.axes[*].letter"] = .ok letters := by rfl
  have joined : ((start [] { store := Store.blank }).step letterRequest).1 = letterClient := by
    simp only [step, letterRequest, Connection.onFrame, decoded, start, if_true,
      Connection.onRequest, accepted]
    rfl
  rw [run_cons, joined]

theorem full_mode_converges_on_letters :
    (∀ front, front <+: letterRequest :: letterEvents →
      ((start [] { store := Store.blank }).run front).1.model.store.root.hasFlatLists = true) ∧
    ((start [] { store := Store.blank }).run
      (letterRequest :: letterEvents)).1.connection.subscription = some letters ∧
    letters.mode = .full ∧
    ((start [] { store := Store.blank }).run (letterRequest :: letterEvents)).1.model.waiting
      ((start [] { store := Store.blank }).run
        (letterRequest :: letterEvents)).1.connection.position = [] ∧
    lastPayload? ((start [] { store := Store.blank }).run (letterRequest :: letterEvents)).2 =
      some (letters.view ((start [] { store := Store.blank }).run
        (letterRequest :: letterEvents)).1.model.store.root).toJson := by
  have flat : ∀ front ∈ letterEvents.inits,
      (letterClient.run front).1.model.store.root.hasFlatLists = true := by decide +kernel
  have along : ∀ front, front <+: letterRequest :: letterEvents →
      ((start [] { store := Store.blank }).run front).1.model.store.root.hasFlatLists = true := by
    intro front within
    rcases List.prefix_cons_iff.mp within with rfl | ⟨later, rfl, below⟩
    · decide +kernel
    · rw [run_letterRequest]
      exact flat later ((List.mem_inits later letterEvents).mpr below)
  have subscribed : ((start [] { store := Store.blank }).run
      (letterRequest :: letterEvents)).1.connection.subscription = some letters := by
    rw [run_letterRequest]
    decide +kernel
  have idle : ((start [] { store := Store.blank }).run
      (letterRequest :: letterEvents)).1.model.waiting ((start [] { store := Store.blank }).run
        (letterRequest :: letterEvents)).1.connection.position = [] := by
    rw [run_letterRequest]
    decide +kernel
  exact ⟨along, subscribed, rfl, idle, full_mode_converges _ _ _ along subscribed rfl idle⟩

end Service

end ModelFeed
