import ModelFeed.Proofs.Convergence
/-!
# Requests and their answers

Every text or binary frame gets exactly one message back, and at once. A request that cannot be
processed gets an error and leaves everything else as it is. A subscription is in force from the
request that was accepted last, and before the first one no model is sent.

What a frame does is said once, in `Connection.onFrame_cases`: it is an accepted subscription, or it
changes at most whether the connection is open. The statements about runs follow by induction over
the events.
-/

namespace ModelFeed

namespace Frame

/-- Whether a frame is answered by a message. -/
def asks : Frame → Bool
  | .text _ | .binary => true
  | _ => false

def isClose : Frame → Bool
  | .close => true
  | _ => false

/-- The subscription that a frame asks for, if it is accepted. -/
def accepted? (defaults : List Filter) : Frame → Option Subscription
  | .text content =>
    match ClientMessage.decode content with
    | .ok (.subscribe mode filters) => (Connection.requested defaults mode filters).toOption
    | _ => none
  | _ => none

/-- The error that a frame is answered by which cannot be processed. -/
inductive Refusal (defaults : List Filter) : Frame → Sent → Prop where
  | binary : Refusal defaults .binary (.message (.error "Expected text frame, received binary"))
  | malformed {content : String} (bad : ClientMessage.decode content = .error .malformed) :
      Refusal defaults (.text content) .malformed
  | mismatched {content : String} {reason : Json.Mismatch}
      (bad : ClientMessage.decode content = .error (.mismatched reason)) :
      Refusal defaults (.text content)
        (.message (.error ("Failed to serialize message: " ++ reason.message)))
  | filters {content : String} {mode : UpdateMode} {filters : List String} {error : FilterError}
      (asked : ClientMessage.decode content = .ok (.subscribe mode filters))
      (bad : Connection.requested defaults mode filters = .error error) :
      Refusal defaults (.text content) (.message (.error error.message))
  | path {content path : String} {restrictedOnly : Bool} {error : FilterError}
      (asked : ClientMessage.decode content = .ok (.query path restrictedOnly))
      (bad : Token.parse .path path = .error error) :
      Refusal defaults (.text content) (.message (.error error.message))

/-- The answer to a frame: an error, the full view of a new subscription, or the value at a path. -/
inductive Answer (defaults : List Filter) (store : Store) : Frame → Sent → Prop where
  | refusal {frame : Frame} {error : Sent} (refused : Refusal defaults frame error) :
      Answer defaults store frame error
  | view {frame : Frame} {subscription : Subscription}
      (accepted : frame.accepted? defaults = some subscription) :
      Answer defaults store frame
        (.message (.ofModel .full store.sequence (subscription.view store.root)))
  | value {content path : String} {restrictedOnly : Bool} {tokens : List Token}
      (asked : ClientMessage.decode content = .ok (.query path restrictedOnly))
      (read : Token.parse .path path = .ok tokens) :
      Answer defaults store (.text content)
        (.message (.queryResult path (store.root.resolve? tokens restrictedOnly).isSome
          ((store.root.resolve? tokens restrictedOnly).elim .null Found.toJson)))

end Frame

/-! ### Frames -/

namespace Connection

variable {defaults : List Filter} {store : Store} {c : Connection} {frame : Frame}

/-- A query that can be read is answered by what its path leads to. -/
theorem answerQuery_eq {path : String} {tokens : List Token} (restrictedOnly : Bool)
    (read : Token.parse .path path = .ok tokens) :
    answerQuery store path restrictedOnly =
      .queryResult path (store.root.resolve? tokens restrictedOnly).isSome
        ((store.root.resolve? tokens restrictedOnly).elim .null Found.toJson) := by
  simp only [answerQuery, Node.query, read, bind, Except.bind, pure, Except.pure]
  cases store.root.resolve? tokens restrictedOnly <;> rfl

theorem answerQuery_of_error {path : String} {error : FilterError} (restrictedOnly : Bool)
    (bad : Token.parse .path path = .error error) :
    answerQuery store path restrictedOnly = .error error.message := by
  simp only [answerQuery, Node.query, bad, bind, Except.bind]

/-- A refusal is all that comes of a frame that cannot be processed. -/
theorem onFrame_of_refusal {error : Sent} (refused : frame.Refusal defaults error) :
    c.onFrame defaults store frame = (c, [error]) := by
  cases refused with
  | binary => rfl
  | malformed bad => simp only [onFrame, bad]
  | mismatched bad =>
    simp only [onFrame, bad]
    rfl
  | filters asked bad => simp only [onFrame, asked, onRequest, bad]
  | path asked bad => simp only [onFrame, asked, onRequest, answerQuery_of_error _ bad]

theorem onFrame_of_accepted {subscription : Subscription}
    (accepted : frame.accepted? defaults = some subscription) :
    c.onFrame defaults store frame =
      ({ c with subscription := some subscription }, [.message (resync store subscription)]) := by
  cases frame with
  | text content =>
    simp only [Frame.accepted?] at accepted
    split at accepted
    next mode filters decoded =>
      cases granted : requested defaults mode filters with
      | error error => simp [granted, Except.toOption] at accepted
      | ok other =>
        simp only [granted, Except.toOption, Option.some.injEq] at accepted
        subst accepted
        simp only [onFrame, decoded, onRequest, granted]
    next => cases accepted
  | _ => cases accepted

/-- Every frame that asks for an answer gets one. -/
theorem onFrame_answers (asks : frame.asks = true) :
    ∃ answer, (c.onFrame defaults store frame).2 = [answer] ∧
      frame.Answer defaults store answer := by
  have refuses {error : Sent} (refused : frame.Refusal defaults error) :
      ∃ answer, (c.onFrame defaults store frame).2 = [answer] ∧
        frame.Answer defaults store answer :=
    ⟨error, by rw [onFrame_of_refusal refused], .refusal refused⟩
  cases frame with
  | binary => exact refuses .binary
  | text content =>
    -- What stops a request first is what refuses it.
    cases decoded : ClientMessage.decode content with
    | error error =>
      cases error with
      | malformed => exact refuses (.malformed decoded)
      | mismatched reason => exact refuses (.mismatched decoded)
    | ok request =>
      cases request with
      | subscribe mode filters =>
        cases granted : requested defaults mode filters with
        | error error => exact refuses (.filters decoded granted)
        | ok subscription =>
          have accepted : (Frame.text content).accepted? defaults = some subscription := by
            simp [Frame.accepted?, decoded, granted, Except.toOption]
          exact ⟨_, by rw [onFrame_of_accepted accepted]; rfl, .view accepted⟩
      | query path restrictedOnly =>
        cases read : Token.parse .path path with
        | error error => exact refuses (.path decoded read)
        | ok tokens =>
          refine ⟨_, ?_, .value decoded read⟩
          simp only [onFrame, decoded, onRequest, answerQuery_eq _ read]
  | _ => cases asks

/-- A frame that is no accepted subscription changes at most whether the connection is open, and
brings no model. -/
theorem onFrame_of_rejected (rejected : frame.accepted? defaults = none) :
    (c.onFrame defaults store frame).1 = { c with isOpen := c.isOpen && !frame.isClose } ∧
      ∀ sent ∈ (c.onFrame defaults store frame).2, sent.payload? = none := by
  have still : c = { c with isOpen := c.isOpen && !false } := by simp
  cases frame with
  | close => exact ⟨by simp [onFrame, Frame.isClose], by simp [onFrame]⟩
  | binary => exact ⟨still, by simp [onFrame, ServerMessage.binaryFrame, Sent.payload?]⟩
  | ping payload => exact ⟨still, by simp [onFrame, Sent.payload?]⟩
  | pong payload => exact ⟨still, by simp [onFrame]⟩
  | text content =>
    obtain ⟨answer, sent, answers⟩ : ∃ answer,
        (c.onFrame defaults store (.text content)).2 = [answer] ∧
          (Frame.text content).Answer defaults store answer := onFrame_answers rfl
    rw [sent]
    simp only [List.mem_singleton, forall_eq]
    -- An answer is a refusal or a query result; the view answers accepted subscriptions only.
    cases answers with
    | refusal refused =>
      rw [onFrame_of_refusal refused]
      exact ⟨still, by cases refused <;> rfl⟩
    | view granted =>
      rw [rejected] at granted
      cases granted
    | value asked read =>
      simp only [onFrame, asked, onRequest]
      exact ⟨still, rfl⟩

/-- A frame is an accepted subscription, or none is accepted with it. -/
theorem onFrame_cases (defaults : List Filter) (store : Store) (c : Connection) (frame : Frame) :
    (∃ subscription, frame.accepted? defaults = some subscription ∧ frame.isClose = false ∧
      c.onFrame defaults store frame =
        ({ c with subscription := some subscription }, [.message (resync store subscription)])) ∨
    (frame.accepted? defaults = none ∧
      (c.onFrame defaults store frame).1 = { c with isOpen := c.isOpen && !frame.isClose } ∧
      ∀ sent ∈ (c.onFrame defaults store frame).2, sent.payload? = none) := by
  cases accepted : frame.accepted? defaults with
  | none => exact .inr ⟨rfl, onFrame_of_rejected accepted⟩
  | some subscription =>
    have text : frame.isClose = false := by
      cases frame with
      | close => cases accepted
      | _ => rfl
    exact .inl ⟨subscription, rfl, text, onFrame_of_accepted accepted⟩

end Connection

/-! ### Runs -/

namespace Event

def isClose : Event → Bool
  | .frame received => received.isClose
  | _ => false

def accepted? (defaults : List Filter) : Event → Option Subscription
  | .frame received => received.accepted? defaults
  | _ => none

/-- The subscriptions accepted in the course of events. After a close there are none. -/
def accepted (defaults : List Filter) (events : List Event) : List Subscription :=
  (events.takeWhile fun event => !event.isClose).filterMap (accepted? defaults)

variable {defaults : List Filter} {event : Event}

theorem accepted?_of_isClose (defaults : List Filter) (closes : event.isClose = true) :
    event.accepted? defaults = none := by
  cases event with
  | frame received => cases received <;> first | rfl | cases closes
  | _ => rfl

theorem accepted_cons_of_isClose (closes : event.isClose = true) (events : List Event) :
    accepted defaults (event :: events) = [] := by
  simp [accepted, closes]

theorem accepted_cons (opens : event.isClose = false) (events : List Event) :
    accepted defaults (event :: events) =
      (event.accepted? defaults).toList ++ accepted defaults events := by
  simp only [accepted, List.takeWhile_cons, opens, Bool.not_false, if_true, List.filterMap_cons]
  cases event.accepted? defaults <;> rfl

end Event

namespace Service

variable {s : Service} {event : Event}

theorem step_frame (listening : s.connection.isOpen = true) (frame : Frame) :
    s.step (.frame frame) =
      ({ s with connection := (s.connection.onFrame s.defaults s.model.store frame).1 },
        (s.connection.onFrame s.defaults s.model.store frame).2) := by
  simp only [step, listening, if_true]

theorem step_receive (listening : s.connection.isOpen = true) :
    s.step .receive = ({ s with connection := (s.connection.receive s.model).1 },
      (s.connection.receive s.model).2) := by
  simp only [step, listening, if_true]

theorem defaults_step (s : Service) (event : Event) : (s.step event).1.defaults = s.defaults := by
  cases event with
  | write mutations => rfl
  | frame frame =>
    simp only [step]
    split <;> rfl
  | receive =>
    simp only [step]
    split <;> rfl

theorem defaults_run (s : Service) (events : List Event) :
    (s.run events).1.defaults = s.defaults := by
  induction events generalizing s with
  | nil => rfl
  | cons event events ih => rw [run_cons, ih, defaults_step]

theorem receive_keeps (model : SharedModel) (c : Connection) :
    (c.receive model).1.subscription = c.subscription ∧ (c.receive model).1.isOpen = c.isOpen ∧
      (c.subscription = none → (c.receive model).2 = []) := by
  cases next : model.receive? c.position with
  | none => simp [Connection.receive, next]
  | some delivered =>
    rw [Connection.receive_eq next]
    refine ⟨rfl, rfl, fun unsubscribed => ?_⟩
    simp [Connection.onDelivered, unsubscribed]

/-- What an event does to an open connection, and that it brings no model where there was and is no
subscription. -/
theorem step_open (listening : s.connection.isOpen = true) (event : Event) :
    (s.step event).1.connection.isOpen = !event.isClose ∧
      (s.step event).1.connection.subscription =
        (event.accepted? s.defaults).or s.connection.subscription ∧
      ((s.step event).1.connection.subscription = none →
        ∀ sent ∈ (s.step event).2, sent.payload? = none) := by
  cases event with
  | write mutations => exact ⟨listening, rfl, fun _ sent member => nomatch member⟩
  | receive =>
    obtain ⟨subscribed, still, silent⟩ := receive_keeps s.model s.connection
    rw [step_receive listening]
    refine ⟨still.trans listening, subscribed, fun unsubscribed sent member => ?_⟩
    rw [silent (subscribed.symm.trans unsubscribed)] at member
    cases member
  | frame frame =>
    rw [step_frame listening]
    obtain ⟨subscription, accepted, text, done⟩ | ⟨refused, done, silent⟩ :=
      Connection.onFrame_cases s.defaults s.model.store s.connection frame
    · rw [done]
      refine ⟨by simp [Event.isClose, text, listening], by simp [Event.accepted?, accepted], ?_⟩
      exact fun unsubscribed => nomatch unsubscribed
    · rw [done]
      refine ⟨?_, ?_, fun _ => silent⟩
      · simp [Event.isClose, listening]
      · simp [Event.accepted?, refused]

theorem sent_cons (s : Service) (event : Event) (events : List Event) :
    (s.run (event :: events)).2 = (s.step event).2 ++ ((s.step event).1.run events).2 := rfl

/-- A closed connection stays as it is and sends nothing. -/
theorem run_closed (closed : s.connection.isOpen = false) (events : List Event) :
    (s.run events).1.connection = s.connection ∧ (s.run events).2 = [] := by
  induction events generalizing s with
  | nil => exact ⟨rfl, rfl⟩
  | cons event events ih =>
    have idle : (s.step event).1.connection = s.connection ∧ (s.step event).2 = [] := by
      cases event <;> simp [step, closed]
    obtain ⟨still, silent⟩ := ih (s := (s.step event).1) (by rw [idle.1, closed])
    exact ⟨still.trans idle.1, by simp [run, idle.2, silent]⟩

/-- What an open connection has become after events: it is closed if one of them was a close, its
subscription is the one accepted last, and a model was sent only if there is one. -/
theorem run_open (listening : s.connection.isOpen = true) (events : List Event) :
    (s.run events).1.connection.isOpen = !events.any Event.isClose ∧
      (s.run events).1.connection.subscription =
        (Event.accepted s.defaults events).getLast?.or s.connection.subscription ∧
      ((s.run events).1.connection.subscription = none →
        ∀ sent ∈ (s.run events).2, sent.payload? = none) := by
  induction events generalizing s with
  | nil => exact ⟨listening, rfl, fun _ sent member => nomatch member⟩
  | cons event events ih =>
    obtain ⟨still, subscribed, silent⟩ := step_open listening event
    by_cases closes : event.isClose = true
    · -- Nothing comes after a close, and the close itself is no subscription.
      have closed : (s.step event).1.connection.isOpen = false := by rw [still, closes]; rfl
      have unasked := Event.accepted?_of_isClose s.defaults closes
      obtain ⟨same, nothing⟩ := run_closed closed events
      rw [run_cons, same, Event.accepted_cons_of_isClose closes, subscribed, unasked]
      refine ⟨by rw [still]; simp [closes], rfl, fun unsubscribed sent member => ?_⟩
      rw [sent_cons, nothing, List.append_nil] at member
      exact silent (by rw [subscribed, unasked]; exact unsubscribed) sent member
    · have opens : event.isClose = false := by simpa using closes
      obtain ⟨later, last, quiet⟩ := ih (s := (s.step event).1) (by rw [still, opens]; rfl)
      rw [run_cons]
      refine ⟨by rw [later]; simp [opens], ?_, fun unsubscribed sent member => ?_⟩
      · rw [last, defaults_step, subscribed, Event.accepted_cons opens, List.getLast?_append]
        cases event.accepted? s.defaults <;> simp
      · -- Where there is no subscription in the end there was none before.
        have before : (s.step event).1.connection.subscription = none :=
          (Option.or_eq_none_iff.mp (last.symm.trans unsubscribed)).2
        rcases List.mem_append.mp member with now | afterwards
        · exact silent before sent now
        · exact quiet unsubscribed sent afterwards

/-- **Requests are answered one for one, and errors change nothing.** Whatever came before, a text or
binary frame is answered by one message, and all comes after a refusal as if there had been none. The
subscription in force is the one accepted last, no model is sent before the first, and only a close
ends the connection. -/
theorem requests_answered (defaults : List Filter) (model : SharedModel) (events : List Event) :
    let s := ((start defaults model).run events).1
    -- Answers
    (∀ frame : Frame, s.connection.isOpen = true → frame.asks = true →
      ∃ answer, (s.step (.frame frame)).2 = [answer] ∧ frame.Answer defaults s.model.store answer) ∧
    -- Errors
    (∀ (frame : Frame) (error : Sent), s.connection.isOpen = true → frame.Refusal defaults error →
      ∀ later, s.run (.frame frame :: later) = ((s.run later).1, error :: (s.run later).2)) ∧
    -- The subscription in force
    s.connection.subscription = (Event.accepted defaults events).getLast? ∧
    -- No model before it
    (Event.accepted defaults events = [] →
      ∀ sent ∈ ((start defaults model).run events).2, sent.payload? = none) ∧
    -- The end
    s.connection.isOpen = !events.any Event.isClose := by
  intro s
  have same : s.defaults = defaults := (start defaults model).defaults_run events
  obtain ⟨still, subscribed, silent⟩ := run_open (s := start defaults model) rfl events
  have inForce : s.connection.subscription = (Event.accepted defaults events).getLast? :=
    subscribed.trans (Option.or_none)
  refine ⟨fun frame listening asks => ?_, fun frame error listening refused later => ?_, inForce,
    fun unasked => silent (by rw [inForce, unasked]; rfl), still⟩
  · rw [step_frame listening, same]
    exact Connection.onFrame_answers asks
  · have refusal : s.step (.frame frame) = (s, [error]) := by
      rw [← same] at refused
      rw [step_frame listening, Connection.onFrame_of_refusal refused]
    simp only [run, refusal, List.singleton_append]

/-- The first of these filters can be read, the second one cannot. -/
def halfReadRequest : Frame :=
  .text "\x7b\"subscribe\": \"patch\", \"filters\": [\"state\", \"tools[1*]\"]\x7d"

theorem accepted_letterRequest (defaults : List Filter) :
    letterRequest.accepted? defaults = some letters := by
  have decoded : ClientMessage.decode
      "\x7b\"subscribe\": \"full\", \"filters\": [\"move.axes[*].letter\"]\x7d" =
      .ok (.subscribe .full ["move.axes[*].letter"]) := by cbv
  simp only [letterRequest, Event.accepted?, Frame.accepted?, decoded]
  rfl

theorem requests_answered_of_letters :
    let s := ((start [] { store := Store.blank }).run (letterRequest :: letterEvents)).1
    let error : Sent := .message (.error (FilterError.invalidIndex "tools[1*]" "1*").message)
    s.connection.isOpen = true ∧ halfReadRequest.asks = true ∧
      (∃ answer, (s.step (.frame halfReadRequest)).2 = [answer] ∧
        halfReadRequest.Answer [] s.model.store answer) ∧
      halfReadRequest.Refusal [] error ∧
      s.run [.frame halfReadRequest, .receive] =
        ((s.run [.receive]).1, error :: (s.run [.receive]).2) ∧
      s.connection.subscription = some letters ∧
      Event.accepted [] letterEvents = [] ∧
      ∀ sent ∈ ((start [] { store := Store.blank }).run letterEvents).2, sent.payload? = none := by
  dsimp only
  obtain ⟨answers, errors, inForce, -, still⟩ :=
    requests_answered [] { store := Store.blank } (letterRequest :: letterEvents)
  obtain ⟨-, -, -, silent, -⟩ := requests_answered [] { store := Store.blank } letterEvents
  have asked : ClientMessage.decode
      "\x7b\"subscribe\": \"patch\", \"filters\": [\"state\", \"tools[1*]\"]\x7d" =
      .ok (.subscribe .patch ["state", "tools[1*]"]) := by cbv
  have unasked : Event.accepted [] letterEvents = [] := by rfl
  have last : (Event.accepted [] (letterRequest :: letterEvents)).getLast? = some letters := by
    rw [Event.accepted_cons rfl, accepted_letterRequest, unasked]
    rfl
  have listening := still.trans (show (!(letterRequest :: letterEvents).any Event.isClose) = true
    from rfl)
  have bad : Connection.requested [] .patch ["state", "tools[1*]"] =
      .error (.invalidIndex "tools[1*]" "1*") := by rfl
  have refused : halfReadRequest.Refusal [] _ := .filters asked bad
  exact ⟨listening, rfl, answers halfReadRequest listening rfl, refused,
    errors halfReadRequest _ listening refused [.receive], inForce.trans last, unasked,
    silent unasked⟩

end Service

end ModelFeed
