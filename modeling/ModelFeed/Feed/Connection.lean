import ModelFeed.Feed.SharedModel
import ModelFeed.Message.Decoding
import ModelFeed.Settings.ServerConfig
import ModelFeed.Subscription
/-!
# Connections

A connection starts with a greeting and has no subscription. Every text or binary frame is answered
by one message; only an accepted subscription replaces the one in force, and its answer is the full
view. Change sets are turned into updates of the subscription against the store as it is when they
are handled; after a lag notice the full view is sent instead. A close ends the connection.
-/

namespace ModelFeed

/-- What a client sends. -/
inductive Frame where
  | text (content : String)
  | binary
  | ping (payload : String)
  | pong (payload : String)
  | close
deriving DecidableEq, Repr

/-- What a client receives. -/
inductive Sent where
  | message (message : ServerMessage)
  /-- The error message about a text that is no JSON value; it says where the fault is. -/
  | malformed
  | pong (payload : String)
deriving Repr

structure Connection where
  subscription : Option Subscription := none
  /-- The place of the next change set in the log. -/
  position : Nat
  isOpen : Bool := true
deriving DecidableEq, Repr

namespace Connection

/-- The greeting of a new client. -/
def greeting (config : ServerConfig) (clientId timestamp : String) : ServerMessage :=
  .hello config.name config.version clientId timestamp

/-- The full view of a subscription. -/
def resync (store : Store) (subscription : Subscription) : ServerMessage :=
  .ofModel .full store.sequence (subscription.view store.root)

/-- The subscription a request asks for; without filters it gets the default ones. -/
def requested (defaults : List Filter) (mode : UpdateMode) (filters : List String) :
    Except FilterError Subscription :=
  if filters.isEmpty then .ok ⟨mode, defaults⟩ else Subscription.parse mode filters

/-- The answer to a query. -/
def answerQuery (store : Store) (path : String) (restrictedOnly : Bool) : ServerMessage :=
  match store.root.query path restrictedOnly with
  | .error error => .error error.message
  | .ok none => .queryResult path false .null
  | .ok (some value) => .queryResult path true value

def onRequest (defaults : List Filter) (store : Store) (c : Connection) :
    ClientMessage → Connection × ServerMessage
  | .subscribe mode filters =>
    match requested defaults mode filters with
    | .error error => (c, .error error.message)
    | .ok subscription =>
      ({ c with subscription := some subscription }, resync store subscription)
  | .query path restrictedOnly => (c, answerQuery store path restrictedOnly)

/-- Handles a frame. -/
def onFrame (defaults : List Filter) (store : Store) (c : Connection) :
    Frame → Connection × List Sent
  | .text content =>
    match ClientMessage.decode content with
    | .error .malformed => (c, [.malformed])
    | .error (.mismatched reason) => (c, [.message (.mismatched reason)])
    | .ok request =>
      let (c, answer) := onRequest defaults store c request
      (c, [.message answer])
  | .binary => (c, [.message .binaryFrame])
  | .ping payload => (c, [.pong payload])
  | .pong _ => (c, [])
  | .close => ({ c with isOpen := false }, [])

/-- The message a delivery causes, if any. -/
def onDelivery (store : Store) (subscription : Subscription) : Delivery → Option ServerMessage
  | .changes set =>
    (subscription.update? store.root set.changes).map
      (.ofModel subscription.mode set.sequence)
  | .lagged _ => some (resync store subscription)

/-- Handles one delivery, after which the place in the log is another. -/
def onDelivered (store : Store) (c : Connection) (delivery : Delivery) (position : Nat) :
    Connection × List Sent :=
  let sent := c.subscription.bind fun subscription => onDelivery store subscription delivery
  ({ c with position }, (sent.map .message).toList)

/-- Takes the next delivery from the log, if there is one. -/
def receive (model : SharedModel) (c : Connection) : Connection × List Sent :=
  match model.receive? c.position with
  | none => (c, [])
  | some (delivery, position) => c.onDelivered model.store delivery position

/-- Takes everything that waits in the log. -/
def receiveAll (model : SharedModel) (c : Connection) : Connection × List Sent :=
  let sent := (model.waiting c.position).filterMap fun delivery =>
    c.subscription.bind fun subscription => onDelivery model.store subscription delivery
  ({ c with position := model.position }, sent.map .message)

theorem receive_eq {model : SharedModel} {c : Connection} {delivery : Delivery} {position : Nat}
    (h : model.receive? c.position = some (delivery, position)) :
    c.receive model = c.onDelivered model.store delivery position := by
  simp [receive, h]

/-- Taking everything that waits is taking one delivery after the other. -/
theorem receiveAll_eq {model : SharedModel} {c : Connection} {delivery : Delivery} {position : Nat}
    (h : model.receive? c.position = some (delivery, position)) :
    c.receiveAll model =
      (((c.receive model).1.receiveAll model).1,
        (c.receive model).2 ++ ((c.receive model).1.receiveAll model).2) := by
  rw [receive_eq h]
  simp only [receiveAll, onDelivered, SharedModel.waiting_eq_cons h, List.filterMap_cons]
  cases c.subscription.bind fun subscription => onDelivery model.store subscription delivery <;>
    simp

end Connection

/-- One connection to a shared model. -/
structure Service where
  defaults : List Filter := []
  model : SharedModel
  connection : Connection

/-- What can happen to a connection and the model it serves. -/
inductive Event where
  | write (mutations : List Mutation)
  | frame (frame : Frame)
  | receive

namespace Service

/-- A closed connection handles nothing more; the model can still be written. -/
def step (s : Service) : Event → Service × List Sent
  | .write mutations => ({ s with model := s.model.write mutations }, [])
  | .frame frame =>
    if s.connection.isOpen then
      let (connection, sent) := s.connection.onFrame s.defaults s.model.store frame
      ({ s with connection }, sent)
    else (s, [])
  | .receive =>
    if s.connection.isOpen then
      let (connection, sent) := s.connection.receive s.model
      ({ s with connection }, sent)
    else (s, [])

/-- What is sent in the course of events. -/
def run (s : Service) : List Event → Service × List Sent
  | [] => (s, [])
  | event :: events =>
    let (s, sent) := s.step event
    let (s, more) := s.run events
    (s, sent ++ more)

end Service

end ModelFeed
