import Mathlib.Data.Option.Basic
import ModelFeed.Lookup
import ModelFeed.Store
/-!
# The gate of a restricted lookup

A restricted lookup is an unrestricted one behind a gate. Whether the gate opens depends on the way
alone: on the first restricted property that the path leads through, and on what it led through
before that. Behind the gate nothing is withheld, so what is found below a restricted property, in
lists, maps and fragments alike, is what an unrestricted lookup finds.

The lookup carries the gate as a flag, and asks for it at the end of a path and before each list. The
proofs follow the flag: a lookup with the gate open is unrestricted (`follow?_of_visible`), and one
with the gate closed needs a restricted property still to come (`follow?_restricted_iff`).
-/

namespace ModelFeed

/-- Whether a token is the name of a property or key. -/
def Token.isName : Token → Bool
  | .name _ => true
  | .index _ => false

/-- A property that a path leads through. -/
structure Crossing where
  /-- The tokens of the path before the name of the property. -/
  before : List Token
  property : Property

/-- The crossing as seen one token earlier. -/
def Crossing.after (token : Token) (crossing : Crossing) : Crossing :=
  { crossing with before := token :: crossing.before }

namespace Node

/-- The properties that a path leads through, in order. There are none inside a JSON fragment. -/
def crossings : List Token → Node → List Crossing
  | .name text :: rest, .structured schema values =>
    match findField? text schema.properties values with
    | none => []
    | some (property, value) =>
      ⟨[], property⟩ :: (crossings rest value).map (Crossing.after (.name text))
  | .name text :: rest, .map entries =>
    match Entries.lookup? text entries with
    | none => []
    | some value => (crossings rest value).map (Crossing.after (.name text))
  | .index index :: rest, .list _ items =>
    match itemAt? items index with
    | none => []
    | some item => (crossings rest item).map (Crossing.after (.index index))
  | _, _ => []

/-- The first restricted property that a path leads through. -/
def firstRestricted? (tokens : List Token) (node : Node) : Option Crossing :=
  (node.crossings tokens).find? fun crossing => crossing.property.restricted

/-- Whether a path leads through a restricted property, and to the first one by names alone. -/
def opensGate (tokens : List Token) (node : Node) : Bool :=
  (node.firstRestricted? tokens).any fun crossing => crossing.before.all Token.isName

/-- What follows one token more opens the gate as before, if that token is a name. -/
theorem any_restricted_after (token : Token) (rest : List Token) (value : Node) :
    ((((value.crossings rest).map (Crossing.after token)).find?
      fun crossing => crossing.property.restricted).any
        fun crossing => crossing.before.all Token.isName) =
      (token.isName && value.opensGate rest) := by
  have first : ((value.crossings rest).map (Crossing.after token)).find?
      (fun crossing => crossing.property.restricted) =
        (value.firstRestricted? rest).map (Crossing.after token) := List.find?_map
  rw [first, opensGate]
  cases value.firstRestricted? rest with
  | none => simp
  | some crossing => simp [Crossing.after]

variable {text : String} {rest : List Token} {schema : Schema} {values : List Node}
  {property : Property} {value : Node}

theorem opensGate_property
    (found : findField? text schema.properties values = some (property, value)) :
    (structured schema values).opensGate (.name text :: rest) =
      (property.restricted || value.opensGate rest) := by
  have later := any_restricted_after (.name text) rest value
  simp only [opensGate, firstRestricted?, crossings, found, List.find?_cons]
  cases property.restricted with
  | true => rfl
  | false => exact later

theorem opensGate_entry {entries : Entries Node}
    (found : Entries.lookup? text entries = some value) :
    (map entries).opensGate (.name text :: rest) = value.opensGate rest := by
  simp only [opensGate, firstRestricted?, crossings, found]
  exact any_restricted_after (.name text) rest value

/-- What comes after an index token comes too late. -/
theorem opensGate_index (index : Int) (rest : List Token) (node : Node) :
    node.opensGate (.index index :: rest) = false := by
  cases node with
  | list element items =>
    simp only [opensGate, firstRestricted?, crossings]
    cases itemAt? items index with
    | none => rfl
    | some item => exact any_restricted_after (.index index) rest item
  | _ => rfl

theorem crossings_append (front back : List Token) (node : Node) :
    ∃ more, node.crossings (front ++ back) = node.crossings front ++ more := by
  induction front generalizing node with
  | nil => exact ⟨node.crossings back, by simp [crossings]⟩
  | cons token front ih =>
    -- Where the path goes on, what it crosses from there is listed one token later.
    have later (value : Node) : ∃ more,
        (value.crossings (front ++ back)).map (Crossing.after token) =
          (value.crossings front).map (Crossing.after token) ++ more := by
      obtain ⟨more, split⟩ := ih value
      exact ⟨more.map (Crossing.after token), by rw [split, List.map_append]⟩
    cases token with
    | name text =>
      cases node with
      | structured schema values =>
        cases field : findField? text schema.properties values with
        | none => exact ⟨[], by simp [crossings, field]⟩
        | some entry =>
          obtain ⟨more, split⟩ := later entry.2
          exact ⟨more, by simp [crossings, field, split]⟩
      | map entries =>
        cases entry : Entries.lookup? text entries with
        | none => exact ⟨[], by simp [crossings, entry]⟩
        | some value =>
          obtain ⟨more, split⟩ := later value
          exact ⟨more, by simp [crossings, entry, split]⟩
      | _ => exact ⟨[], rfl⟩
    | index index =>
      cases node with
      | list element items =>
        cases placed : itemAt? items index with
        | none => exact ⟨[], by simp [crossings, placed]⟩
        | some item =>
          obtain ⟨more, split⟩ := later item
          exact ⟨more, by simp [crossings, placed, split]⟩
      | _ => exact ⟨[], rfl⟩

/-- A gate that has opened on the way stays open. -/
theorem opensGate_append {tokens : List Token} {node : Node} (opens : node.opensGate tokens = true)
    (below : List Token) : node.opensGate (tokens ++ below) = true := by
  obtain ⟨more, split⟩ := node.crossings_append tokens below
  cases first : node.firstRestricted? tokens with
  | none => simp [opensGate, first] at opens
  | some crossing =>
    have still : node.firstRestricted? (tokens ++ below) = some crossing := by
      rw [firstRestricted?, split, List.find?_append, ← firstRestricted?, first, Option.some_or]
    rwa [opensGate, still, ← first]

theorem opensGate_iff {tokens : List Token} {node : Node} :
    node.opensGate tokens = true ↔ ∃ crossing, node.firstRestricted? tokens = some crossing ∧
      ∀ token ∈ crossing.before, token.isName = true := by
  simp [opensGate, Option.any_eq_true]

end Node

/-! ### The gate is open -/

theorem isVisible_or {restrictedOnly crossed : Bool}
    (visible : isVisible restrictedOnly crossed = true) (now : Bool) : isVisible restrictedOnly (crossed || now) = true := by
  revert visible
  cases restrictedOnly <;> cases crossed <;> simp [isVisible]

theorem Json.follow?_of_visible {restrictedOnly crossed : Bool}
    (visible : isVisible restrictedOnly crossed = true) (tokens : List Token) (value : Json) :
    value.follow? restrictedOnly tokens crossed = value.follow? false tokens false := by
  have shown : isVisible false false = true := rfl
  induction tokens generalizing value with
  | nil => simp only [follow?, visible, shown]
  | cons token rest ih =>
    cases token with
    | name text =>
      cases value with
      | object members => exact Option.bind_congr fun member _ => ih member
      | _ => rfl
    | index index =>
      cases value with
      | array items =>
        simp only [follow?, visible, shown, if_true]
        exact Option.bind_congr fun item _ => ih item
      | _ => rfl

/-- With the gate open a lookup is unrestricted, and the gate stays open. -/
theorem Node.follow?_of_visible {restrictedOnly crossed : Bool}
    (visible : isVisible restrictedOnly crossed = true) (tokens : List Token) (node : Node) :
    node.follow? restrictedOnly tokens crossed = node.follow? false tokens false := by
  have shown : isVisible false false = true := rfl
  induction tokens generalizing node crossed with
  | nil => cases node <;> simp [follow?, visible, shown]
  | cons token rest ih =>
    cases token with
    | name text =>
      cases node with
      | structured schema values =>
        refine Option.bind_congr fun ⟨property, value⟩ _ => ?_
        change (if _ then follow? restrictedOnly rest value _ else none) =
          if _ then follow? false rest value false else none
        rw [ih (isVisible_or visible _)]
      | map entries => exact Option.bind_congr fun value _ => ih visible value
      | blob json => exact Json.follow?_of_visible visible _ json
      | _ => rfl
    | index index =>
      cases node with
      | list element items =>
        simp only [follow?, visible, shown, if_true]
        exact Option.bind_congr fun item _ => ih visible item
      | blob json => exact Json.follow?_of_visible visible _ json
      | _ => rfl

/-! ### The gate is closed -/

/-- A JSON fragment has no restricted properties, so nothing in it opens the gate. -/
theorem Json.follow?_of_hidden (tokens : List Token) (value : Json) :
    value.follow? true tokens false = none := by
  induction tokens generalizing value with
  | nil => rfl
  | cons token rest ih =>
    cases token with
    | name text =>
      cases value with
      | object members => simp [follow?, ih]
      | _ => rfl
    | index index => cases value <;> rfl

/-- With the gate still closed a lookup finds what the unrestricted one finds, if the rest of the way
opens the gate. -/
theorem Node.follow?_restricted_iff {tokens : List Token} {node : Node} {found : Found} :
    node.follow? true tokens false = some found ↔
      node.follow? false tokens false = some found ∧ node.opensGate tokens = true := by
  induction tokens generalizing node with
  | nil => cases node <;> simp [follow?, isVisible, opensGate, firstRestricted?, crossings]
  | cons token rest ih =>
    cases token with
    | index index =>
      rw [opensGate_index]
      cases node with
      | blob json => simp [follow?, Json.follow?_of_hidden]
      | _ => simp [follow?, isVisible]
    | name text =>
      cases node with
      | structured schema values =>
        cases field : findField? text schema.properties values with
        | none => simp [follow?, field]
        | some entry =>
          obtain ⟨property, value⟩ := entry
          rw [opensGate_property field]
          simp only [follow?, field, Option.bind_some]
          split
          next =>
            -- A restricted property opens the gate, and any other one leaves it closed.
            cases property.restricted with
            | true => simp [follow?_of_visible (show isVisible true true = true from rfl)]
            | false => simpa using ih
          next => simp
      | map entries =>
        cases entry : Entries.lookup? text entries with
        | none => simp [follow?, entry]
        | some value =>
          rw [opensGate_entry entry]
          simpa only [follow?, entry, Option.bind_some] using ih
      | blob json => simp [follow?, Json.follow?_of_hidden, opensGate, firstRestricted?, crossings]
      | _ => simp [follow?]

namespace Node

theorem resolve?_restricted_iff {tokens : List Token} {node : Node} {found : Found} :
    node.resolve? tokens true = some found ↔
      node.resolve? tokens false = some found ∧ node.opensGate tokens = true := by
  unfold resolve?
  split
  next => simp
  next => exact follow?_restricted_iff

/-- **The gate is exact and sticky.** A restricted lookup finds what an unrestricted one finds, if the
path leads through a restricted property and reaches the first one by names alone. Below a value that
a restricted lookup finds nothing is withheld. -/
theorem restricted_gate (node : Node) (tokens : List Token) :
    (∀ found, node.resolve? tokens true = some found ↔
      node.resolve? tokens false = some found ∧
        ∃ crossing, node.firstRestricted? tokens = some crossing ∧
          ∀ token ∈ crossing.before, token.isName = true) ∧
    ((node.resolve? tokens true).isSome = true → ∀ below,
      node.resolve? (tokens ++ below) true = node.resolve? (tokens ++ below) false) := by
  refine ⟨fun found => resolve?_restricted_iff.trans (and_congr_right' opensGate_iff), ?_⟩
  intro reached below
  obtain ⟨found, resolved⟩ := Option.isSome_iff_exists.mp reached
  have opens := opensGate_append (resolve?_restricted_iff.mp resolved).2 below
  refine Option.ext fun deeper => ?_
  rw [resolve?_restricted_iff]
  exact and_iff_left opens

/-- A machine with a plugin that has told what it listens to. -/
def pluginMachine : Node :=
  (Store.blank.set [.member "plugins", .member "Example"]
    (.blob (.object [("topics", .array [.string "temperature"])]))).1.root

theorem restricted_gate_of_plugin :
    let plugin : List Token := [.name "plugins", .name "example"]
    (pluginMachine.resolve? plugin true).isSome = true ∧
      pluginMachine.resolve? (plugin ++ [.name "topics", .index 0]) true =
        some (.json (.string "temperature")) ∧
      ∀ below, pluginMachine.resolve? (plugin ++ below) true =
        pluginMachine.resolve? (plugin ++ below) false := by
  intro plugin
  have reached : (pluginMachine.resolve? plugin true).isSome = true := by decide +kernel
  have topic : pluginMachine.resolve? (plugin ++ [.name "topics", .index 0]) true =
      some (.json (.string "temperature")) := by rfl
  exact ⟨reached, topic, (restricted_gate pluginMachine plugin).2 reached⟩

end Node

end ModelFeed
