import ModelFeed.Node.Structured
/-!
# The machine model

The schemas of a printer: its boards and heaters, the job it works on, its axes and tools, and what
the control server knows of itself. The parts that the control server maintains are restricted:
plugins, the single-board computer, and the version and features of the server.
-/

namespace ModelFeed.Machine

def scalar (name : String) : Property :=
  { name, kind := .scalar }

def scalarList (name : String) : Property :=
  { name, kind := .list .scalar }

def listOf (schema : Schema) (name : String) : Property :=
  { name, kind := .list (.structured schema) }

def nested (schema : Schema) (name : String) : Property :=
  { name, kind := .structured schema }

def axis : Schema where
  id := 0
  name := "Axis"
  properties :=
    ["letter", "homed", "machinePosition", "userPosition", "babystep", "min", "max"].map scalar ++
      ["drivers", "workplaceOffsets"].map scalarList

def extruder : Schema where
  id := 1
  name := "Extruder"
  properties := ["driver", "filament", "position", "rawPosition", "factor"].map scalar

def move : Schema where
  id := 2
  name := "Move"
  properties :=
    [listOf axis "axes", listOf extruder "extruders", scalar "currentMove", scalar "speedFactor",
      scalar "workplaceNumber"]

def heater : Schema where
  id := 3
  name := "Heater"
  properties := ["active", "current", "standby", "state", "sensor"].map scalar

def heat : Schema where
  id := 4
  name := "Heat"
  properties := [scalarList "bedHeaters", scalarList "chamberHeaters", listOf heater "heaters"]

def jobFile : Schema where
  id := 5
  name := "GCodeFileInfo"
  properties :=
    ["fileName", "size", "height"].map scalar ++
      [scalarList "filament", { name := "thumbnails", kind := .blob }]

def job : Schema where
  id := 6
  name := "Job"
  properties :=
    [nested jobFile "file", scalar "filePosition", scalar "lastFileName",
      scalar "lastFileAborted", scalar "layer", { name := "layers", kind := .list .list }]

def message : Schema where
  id := 7
  name := "Message"
  properties := ["content", "time", "type"].map scalar

def state : Schema where
  id := 8
  name := "State"
  properties :=
    [scalar "status", scalar "displayMessage", { name := "messageBox", kind := .blob },
      { name := "gcodeBuffer", kind := .map }, scalar "upTime",
      (scalar "dsfVersion").restrict, (scalar "dsfPluginSupport").restrict]

def board : Schema where
  id := 9
  name := "Board"
  properties := ["name", "firmwareVersion", "canAddress", "mcuTemp"].map scalar

def cpu : Schema where
  id := 10
  name := "CPU"
  properties := ["hardware", "avgLoad", "temperature"].map scalar

def sbc : Schema where
  id := 11
  name := "SBC"
  properties := [scalar "distribution", scalar "model", nested cpu "cpu", scalar "uptime"]

def tool : Schema where
  id := 12
  name := "Tool"
  properties :=
    ["number", "name"].map scalar ++ ["heaters", "extruders", "offsets"].map scalarList

/-- The schema of the whole machine. -/
def machine : Schema where
  id := 13
  name := "ObjectModel"
  properties :=
    [listOf board "boards", { name := "global", kind := .map }, nested heat "heat",
      nested job "job", listOf message "messages", nested move "move",
      { name := "plugins", kind := .map, restricted := true }, (nested sbc "sbc").restrict,
      nested state "state", listOf tool "tools"]

/-- Every schema of the machine, in order of declaration. -/
def schemas : List Schema :=
  [axis, extruder, move, heater, heat, jobFile, job, message, state, board, cpu, sbc, tool,
    machine]

/-- A machine about which nothing is known yet. -/
def blank : Node :=
  machine.new

end ModelFeed.Machine
