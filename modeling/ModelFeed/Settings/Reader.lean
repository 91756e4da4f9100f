import ModelFeed.Json.Mismatch
import ModelFeed.Json.Skipping
import ModelFeed.Settings.Basic
/-!
# Reading settings

Settings are an object with any of the fields, or an array of their values in order of declaration.
Fields that are left out have their defaults; unknown members are skipped; a field given twice is
refused as soon as its name is read again.
-/

namespace ModelFeed.Settings

open Json (Reader ReadError skipBlanks)

/-- Reads the value of a field into the settings. -/
def readField (field : Field) (settings : Settings) : Reader Settings := fun cs =>
  match field with
  | .bindAddress => do
    let (bindAddress, rest) ← Json.readText cs
    return ({ settings with bindAddress }, rest)
  | .serverName => do
    let (serverName, rest) ← Json.readText cs
    return ({ settings with serverName }, rest)
  | .maxLockTimeMs => do
    let (maxLockTimeMs, rest) ← Json.readCount cs
    return ({ settings with maxLockTimeMs }, rest)
  | .updateIntervalMs => do
    let (updateIntervalMs, rest) ← Json.readCount cs
    return ({ settings with updateIntervalMs }, rest)
  | .defaultFilters => do
    let (defaultFilters, rest) ← Json.readText cs
    return ({ settings with defaultFilters }, rest)

/-- What follows a colon. -/
def afterColon (cs : List Char) : Except ReadError (List Char) :=
  match skipBlanks cs with
  | ':' :: rest => .ok rest
  | _ => .error .malformed

/-- Reads one member, from the opening quote of its key. -/
def readMember (seen : List Field) (settings : Settings) :
    Reader (List Field × Settings) := fun cs =>
  match skipBlanks cs with
  | '"' :: rest => do
    let (key, rest) ← Json.orMalformed (Json.readString? rest)
    match Field.ofName? key with
    | none =>
      let rest ← Json.orMalformed (Json.skipValue? (← afterColon rest))
      return ((seen, settings), rest)
    | some field =>
      if seen.contains field then .error (.mismatched (.duplicateField field.name))
      else do
        let (settings, rest) ← readField field settings (← afterColon rest)
        return ((field :: seen, settings), rest)
  | _ => .error .malformed

/-- Reads members up to the closing brace. Each takes at least a character of fuel. -/
def readMembers : (fuel : Nat) → List Field → Settings → Reader Settings
  | 0, _, _ => fun _ => .error .malformed
  | fuel + 1, seen, settings => fun cs => do
    let ((seen, settings), rest) ← readMember seen settings cs
    match skipBlanks rest with
    | ',' :: rest => readMembers fuel seen settings rest
    | '}' :: rest => return (settings, rest)
    | _ => .error .malformed

/-- Reads values for the given fields up to the closing bracket. -/
def readValues : List Field → Settings → Reader Settings
  | [], settings => fun cs =>
    match skipBlanks cs with
    | ']' :: rest => .ok (settings, rest)
    | _ => .error .malformed
  | field :: fields, settings => fun cs => do
    let (settings, rest) ← readField field settings cs
    match skipBlanks rest with
    | ']' :: rest => return (settings, rest)
    | ',' :: rest =>
      if fields.isEmpty then .error .malformed else readValues fields settings rest
    | _ => .error .malformed

/-- Reads settings from the front of a text. -/
def read : Reader Settings := fun cs =>
  match skipBlanks cs with
  | '[' :: rest =>
    match skipBlanks rest with
    | ']' :: rest => .ok ({}, rest)
    | _ => readValues Field.all {} rest
  | '{' :: rest =>
    match skipBlanks rest with
    | '}' :: rest => .ok ({}, rest)
    | _ => readMembers (rest.length + 1) [] {} rest
  | cs => Json.wrongTypeAt (.record "ServerSettings") cs

/-- The settings a text holds. -/
def ofText (text : String) : Except ReadError Settings := do
  let (settings, rest) ← read text.toList
  if (skipBlanks rest).isEmpty then return settings else .error .malformed

/-- What there is in the place of a settings file. -/
inductive File where
  | missing
  /-- Something that cannot be read, such as a directory. -/
  | unreadable
  | octets (bytes : ByteArray)

inductive LoadError where
  | unreadable
  | invalid (error : ReadError)
deriving DecidableEq, Repr

/-- The settings a file holds. A missing file yields the defaults; a file has to be UTF-8. -/
def load : File → Except LoadError Settings
  | .missing => .ok {}
  | .unreadable => .error .unreadable
  | .octets bytes =>
    match String.fromUTF8? bytes with
    | none => .error .unreadable
    | some text => (ofText text).mapError .invalid

/-- The text of a mismatch in settings. -/
def invalidMessage (reason : Json.Mismatch) : String :=
  "Invalid data: " ++ reason.message

end ModelFeed.Settings
