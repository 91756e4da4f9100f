import ModelFeed.Json.Mismatch
import ModelFeed.Json.Printer
import ModelFeed.Node.Rendering
/-!
# Messages

Clients subscribe to filtered models and query single values. The server greets a client, sends it
filtered models, and answers queries and errors. Every message is a JSON object; its members stand
in a fixed order.
-/

namespace ModelFeed

/-- Whether updates carry the whole filtered model or only what changed. -/
inductive UpdateMode where
  | full
  | patch
deriving DecidableEq, Repr, Inhabited

inductive ClientMessage where
  /-- Each entry may itself be a list of filters. -/
  | subscribe (mode : UpdateMode) (filters : List String)
  | query (path : String) (restrictedOnly : Bool)
deriving DecidableEq, Repr

inductive ServerMessage where
  | hello (name version clientId timestamp : String)
  /-- A filtered model, with the number of mutations applied when it was built. -/
  | update (mode : UpdateMode) (sequence : Nat) (model : Json)
  | queryResult (path : String) (found : Bool) (result : Json)
  | error (message : String)
deriving Repr

def UpdateMode.name : UpdateMode → String
  | .full => "full"
  | .patch => "patch"

def ClientMessage.text : ClientMessage → String
  | .subscribe mode filters =>
    Json.objectText [("subscribe", Json.stringChars mode.name),
      ("filters", Json.arrayChars (filters.map Json.stringChars))]
  | .query path restrictedOnly =>
    Json.objectText [("query", Json.stringChars path),
      ("restrictedOnly", Json.boolChars restrictedOnly)]

/-- The text about a message that does not fit. -/
def mismatchText (reason : Json.Mismatch) : String :=
  "Failed to serialize message: " ++ reason.message

namespace ServerMessage

def text : ServerMessage → String
  | .hello name version clientId timestamp =>
    Json.objectText [("name", Json.stringChars name), ("version", Json.stringChars version),
      ("clientId", Json.stringChars clientId), ("timestamp", Json.stringChars timestamp)]
  | .update mode sequence model =>
    Json.objectText [("update", Json.stringChars mode.name), ("sequence", Nat.toDigits 10 sequence),
      ("model", model.chars)]
  | .queryResult path found result =>
    Json.objectText [("path", Json.stringChars path), ("found", Json.boolChars found),
      ("result", result.chars)]
  | .error message => Json.objectText [("error", Json.stringChars message)]

/-- The message that carries a filtered model. -/
def ofModel (mode : UpdateMode) (sequence : Nat) (model : Node) : ServerMessage :=
  .update mode sequence model.toJson

/-- What a client is told that sends a binary frame. -/
def binaryFrame : ServerMessage :=
  .error "Expected text frame, received binary"

/-- What a client is told about JSON text that is not a message. -/
def mismatched (reason : Json.Mismatch) : ServerMessage :=
  .error (mismatchText reason)

end ServerMessage

end ModelFeed
