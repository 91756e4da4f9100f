import ModelFeed.Node.Basic
import ModelFeed.Path
/-!
# Structured nodes

A new structured node has the default of every property: null for scalars and blobs, a new node for
a nested schema, nothing in lists and maps. A property only takes values of its kind, and null.
-/

namespace ModelFeed

inductive ModelError where
  | unknownProperty (name : String)
  | kindMismatch (property : String) (expected : PropertyKind)
  | indexOutOfRange (list : String) (index length : Nat)
  /-- The path, or the step where it goes wrong. -/
  | invalidPath (path : Path)

def ModelError.message : ModelError → String
  | .unknownProperty name => "Unknown property: " ++ name
  | .kindMismatch property expected =>
    "Property " ++ property ++ " expects a value of kind " ++ expected.text
  | .indexOutOfRange list index length =>
    "Index " ++ toString index ++ " out of range for " ++ list ++
      " (length " ++ toString length ++ ")"
  | .invalidPath path => "Path does not address a model node: " ++ path.text

mutual

/-- The values of a new node of this schema. -/
def Schema.defaults : Schema → List Node
  | ⟨_, _, properties⟩ => defaultsOf properties

def defaultsOf : List Property → List Node
  | [] => []
  | property :: properties => property.default :: defaultsOf properties

def Property.default : Property → Node
  | ⟨_, kind, _⟩ => kind.default

def PropertyKind.default : PropertyKind → Node
  | .scalar => .null
  | .blob => .null
  | .map => .emptyMap
  | .list element => .list element []
  | .structured schema => .structured schema schema.defaults

end

/-- A new node of a schema. -/
def Schema.new (schema : Schema) : Node :=
  .structured schema schema.defaults

/-- A list of new nodes of a schema. -/
def Schema.newList (schema : Schema) (count : Nat) : Node :=
  .list (.structured schema) (List.replicate count schema.new)

/-- Whether a property may hold a value. -/
def PropertyKind.accepts : PropertyKind → Node → Bool
  | _, .null => true
  | .scalar, value => value.isScalar
  | .structured schema, .structured other _ => other.same schema
  | .list _, .list .. => true
  | .map, .map _ => true
  | .blob, .blob _ => true
  | _, _ => false

def Property.check (property : Property) (value : Node) : Except ModelError Node :=
  if property.kind.accepts value then .ok value
  else .error (.kindMismatch property.name property.kind)

/-- The first property of a name with its value. -/
def findField? (name : String) : List Property → List Node → Option (Property × Node)
  | property :: properties, value :: values =>
    if sameName property.name name then some (property, value)
    else findField? name properties values
  | _, _ => none

/-- Changes the value of the first property of a name. -/
def modifyField (name : String) (change : Property → Node → Except ModelError Node) :
    List Property → List Node → Except ModelError (List Node)
  | property :: properties, value :: values =>
    if sameName property.name name then do
      return (← change property value) :: values
    else do
      return value :: (← modifyField name change properties values)
  | _, _ => .error (.unknownProperty name)

namespace Node

/-- The property of a name, with its value. -/
def field? (node : Node) (name : String) : Option (Property × Node) :=
  match node with
  | .structured schema values => findField? name schema.properties values
  | _ => none

/-- Sets a property of a structured node after checking the value. -/
def setField (node : Node) (name : String) (value : Node) : Except ModelError Node :=
  match node with
  | .structured schema values => do
    let values ← modifyField name (fun property _ => property.check value) schema.properties values
    return .structured schema values
  | _ => .error (.invalidPath [.member name])

end Node

theorem length_defaultsOf (properties : List Property) :
    (defaultsOf properties).length = properties.length := by
  induction properties with
  | nil => simp [defaultsOf]
  | cons property properties ih => simp [defaultsOf, ih]

/-- A new node has one value for each property. -/
theorem Schema.length_defaults (schema : Schema) :
    schema.defaults.length = schema.properties.length := by
  cases schema
  simp [Schema.defaults, length_defaultsOf]

theorem findField?_eq_find? (name : String) (properties : List Property) (values : List Node) :
    findField? name properties values =
      (properties.zip values).find? fun field => sameName field.1.name name := by
  induction properties generalizing values with
  | nil => simp [findField?]
  | cons property properties ih =>
    cases values with
    | nil => simp [findField?]
    | cons value values =>
      simp only [findField?, List.zip_cons_cons, List.find?_cons]
      split <;> simp_all

end ModelFeed
