import ModelFeed.Json.Reader
import ModelFeed.Message.Basic
/-!
# Decoding messages

A message is an object with the fields of its kind, or an array of their values in order. Unknown
members do not matter, but a field given twice, a missing field without a default or a value of
another type rules the kind out. The first kind that fits is taken. The whole first value of the
text is read before the kinds are tried, and only then what follows it.
-/

namespace ModelFeed

namespace Json

/-- The value of the member with this key, unless there are several. -/
def uniqueMember? (members : List (String × Json)) (key : String) : Option (Option Json) :=
  match members.filter fun member => member.1 == key with
  | [] => some none
  | [member] => some (some member.2)
  | _ => none

/-- The values of the given fields, as far as they are present. -/
def fields? (names : List String) : Json → Option (List (Option Json))
  | .object members => names.mapM (uniqueMember? members)
  | .array items =>
    if items.length ≤ names.length then
      some (items.map some ++ List.replicate (names.length - items.length) none)
    else none
  | _ => none

def string? : Json → Option String
  | .string s => some s
  | _ => none

def bool? : Json → Option Bool
  | .bool b => some b
  | _ => none

def natural? : Json → Option Nat
  | .number n => n.natural?
  | _ => none

def strings? : Json → Option (List String)
  | .array items => items.mapM string?
  | _ => none

end Json

/-- A mode by its name, which may also stand as the only key of an object with null. -/
def UpdateMode.ofJson? : Json → Option UpdateMode
  | .string "full" | .object [("full", .null)] => some .full
  | .string "patch" | .object [("patch", .null)] => some .patch
  | _ => none

namespace ClientMessage

def subscribeOfJson? (document : Json) : Option ClientMessage :=
  match document.fields? ["subscribe", "filters"] with
  | some [some mode, filters] => do
    return .subscribe (← UpdateMode.ofJson? mode) (← filters.elim (some []) Json.strings?)
  | _ => none

def queryOfJson? (document : Json) : Option ClientMessage :=
  match document.fields? ["query", "restrictedOnly"] with
  | some [some path, restrictedOnly] => do
    return .query (← path.string?) (← restrictedOnly.elim (some false) Json.bool?)
  | _ => none

def ofJson? (document : Json) : Option ClientMessage :=
  (subscribeOfJson? document).orElse fun _ => queryOfJson? document

end ClientMessage

namespace ServerMessage

def helloOfJson? (document : Json) : Option ServerMessage :=
  match document.fields? ["name", "version", "clientId", "timestamp"] with
  | some [some name, some version, some clientId, some timestamp] => do
    return .hello (← name.string?) (← version.string?) (← clientId.string?) (← timestamp.string?)
  | _ => none

def updateOfJson? (document : Json) : Option ServerMessage :=
  match document.fields? ["update", "sequence", "model"] with
  | some [some mode, some sequence, some model] => do
    return .update (← UpdateMode.ofJson? mode) (← sequence.natural?) model.canonical
  | _ => none

def queryResultOfJson? (document : Json) : Option ServerMessage :=
  match document.fields? ["path", "found", "result"] with
  | some [some path, some found, some result] => do
    return .queryResult (← path.string?) (← found.bool?) result.canonical
  | _ => none

def errorOfJson? (document : Json) : Option ServerMessage :=
  match document.fields? ["error"] with
  | some [some message] => message.string?.map .error
  | _ => none

def ofJson? (document : Json) : Option ServerMessage :=
  (((helloOfJson? document).orElse fun _ => updateOfJson? document).orElse
    fun _ => queryResultOfJson? document).orElse fun _ => errorOfJson? document

end ServerMessage

/-- Decodes a text whose first value has to fit; `type` names what was expected. -/
def decodeText {α : Type} (type : String) (ofJson? : Json → Option α) (text : String) :
    Except Json.ReadError α :=
  match Json.readFirst? text.toList with
  | none => .error .malformed
  | some (document, rest) =>
    match ofJson? document with
    | none => .error (.mismatched (.noVariant type))
    | some message =>
      if (Json.skipBlanks rest).isEmpty then .ok message else .error .malformed

def ClientMessage.decode : String → Except Json.ReadError ClientMessage :=
  decodeText "ClientMessage" ClientMessage.ofJson?

def ServerMessage.decode : String → Except Json.ReadError ServerMessage :=
  decodeText "ServerMessage" ServerMessage.ofJson?

end ModelFeed
