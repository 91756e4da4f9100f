import ModelFeed.Text.Name
/-!
# Schemas

A schema declares the properties of one kind of structured node: their names in order, what kind of
value each holds, and whether it is restricted. Restricted properties are maintained by the control
server itself and not by the firmware.
-/

namespace ModelFeed

mutual

/-- The properties of one kind of structured node. Schemas are told apart by the number of their
declaration, so two declarations differ even when they read the same. -/
structure Schema where
  id : Nat
  name : String
  properties : List Property

structure Property where
  name : String
  kind : PropertyKind
  restricted : Bool := false

inductive PropertyKind where
  | scalar
  | structured (schema : Schema)
  | list (element : ElementKind)
  | map
  | blob

/-- What the items of a list are. -/
inductive ElementKind where
  | scalar
  | structured (schema : Schema)
  | list

end

deriving instance Inhabited for ElementKind, PropertyKind

namespace Schema

instance : Inhabited Schema := ⟨⟨0, "", []⟩⟩

/-- The same declaration. -/
def same (a b : Schema) : Bool :=
  a.id == b.id

/-- The place of the first property of a name. -/
def position? (s : Schema) (name : String) : Option Nat :=
  s.properties.findIdx? fun p => sameName p.name name

def property? (s : Schema) (name : String) : Option Property :=
  s.properties.find? fun p => sameName p.name name

def text (s : Schema) : String :=
  "Schema(" ++ s.name ++ ")"

end Schema

def Property.restrict (property : Property) : Property :=
  { property with restricted := true }

namespace ElementKind

def same : ElementKind → ElementKind → Bool
  | .scalar, .scalar => true
  | .structured a, .structured b => a.same b
  | .list, .list => true
  | _, _ => false

/-- Lists of scalars are never taken apart. -/
def isContainer : ElementKind → Bool
  | .scalar => false
  | _ => true

def text : ElementKind → String
  | .scalar => "Scalar"
  | .structured s => "Structured(" ++ s.text ++ ")"
  | .list => "List"

end ElementKind

namespace PropertyKind

/-- Whether a path may lead below a property of this kind. -/
def isDescendable : PropertyKind → Bool
  | .scalar => false
  | _ => true

def text : PropertyKind → String
  | .scalar => "Scalar"
  | .structured s => "Structured(" ++ s.text ++ ")"
  | .list element => "List(" ++ element.text ++ ")"
  | .map => "Map"
  | .blob => "Blob"

end PropertyKind

end ModelFeed
