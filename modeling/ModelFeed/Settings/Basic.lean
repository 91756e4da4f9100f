import ModelFeed.Filter.Listing
import ModelFeed.Json.Printer
/-!
# Server settings

Every setting has a default, so a missing or partial settings file is as good as a full one.
-/

namespace ModelFeed

structure Settings where
  bindAddress : String := "127.0.0.1:9888"
  /-- The name announced to clients. -/
  serverName : String := "dsf-rs"
  /-- How long the model may be locked before a warning. -/
  maxLockTimeMs : Nat := 250
  updateIntervalMs : Nat := 1000
  /-- The filters of subscriptions that do not name any. -/
  defaultFilters : String := ""
deriving DecidableEq, Repr

namespace Settings

instance : Inhabited Settings := ⟨{}⟩

inductive Field where
  | bindAddress
  | serverName
  | maxLockTimeMs
  | updateIntervalMs
  | defaultFilters
deriving DecidableEq, Repr

/-- The fields in order of declaration. -/
def Field.all : List Field :=
  [.bindAddress, .serverName, .maxLockTimeMs, .updateIntervalMs, .defaultFilters]

def Field.name : Field → String
  | .bindAddress => "bindAddress"
  | .serverName => "serverName"
  | .maxLockTimeMs => "maxLockTimeMs"
  | .updateIntervalMs => "updateIntervalMs"
  | .defaultFilters => "defaultFilters"

def Field.ofName? (name : String) : Option Field :=
  Field.all.find? fun field => field.name == name

def Field.chars (settings : Settings) : Field → List Char
  | .bindAddress => Json.stringChars settings.bindAddress
  | .serverName => Json.stringChars settings.serverName
  | .maxLockTimeMs => Nat.toDigits 10 settings.maxLockTimeMs
  | .updateIntervalMs => Nat.toDigits 10 settings.updateIntervalMs
  | .defaultFilters => Json.stringChars settings.defaultFilters

/-- The settings as a JSON object with its members in order of declaration. -/
def text (settings : Settings) : String :=
  Json.objectText (Field.all.map fun field => (field.name, field.chars settings))

def filters (settings : Settings) : Except FilterError (List Filter) :=
  Filter.parseList settings.defaultFilters

theorem Field.ofName?_name (field : Field) : Field.ofName? field.name = some field := by
  cases field <;> rfl

end Settings

end ModelFeed
