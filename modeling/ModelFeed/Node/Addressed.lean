import ModelFeed.Entries
import ModelFeed.Node.Items
import ModelFeed.Node.Structured
/-!
# Nodes at paths

A step of a path goes to a property by the first of its name, and to a map entry by the exact
spelling or else the first of the name. Reading and editing resolve it the same way. An edit that is
refused at the end of a path is refused as a whole.
-/

namespace ModelFeed

/-- The value a step goes through: a property or a map entry. -/
def Node.member? (name : String) : Node → Option Node
  | .structured schema values => (findField? name schema.properties values).map Prod.snd
  | .map entries => Entries.lookup? name entries
  | _ => none

def Node.child? (node : Node) (step : Step) : Option Node :=
  (node.member? step.name).bind fun value =>
    match step with
    | .member _ => some value
    | .item _ index => value.item? index

theorem Node.child?_member (node : Node) (name : String) :
    node.child? (.member name) = node.member? name := by
  change (node.member? name).bind some = node.member? name
  cases node.member? name <;> rfl

theorem Node.child?_item (node : Node) (list : String) (index : Nat) :
    node.child? (.item list index) = (node.member? list).bind (item? index) := rfl

/-- The node at the end of a path. -/
def Node.get? : Path → Node → Option Node
  | [], node => some node
  | step :: path, node => (node.child? step).bind (get? path)

@[simp] theorem Node.get?_nil (node : Node) : node.get? [] = some node := rfl

theorem Node.get?_cons (step : Step) (path : Path) (node : Node) :
    node.get? (step :: path) = (node.child? step).bind (get? path) := rfl

theorem Node.get?_append (front back : Path) (node : Node) :
    node.get? (front ++ back) = (node.get? front).bind (get? back) := by
  induction front generalizing node with
  | nil => rfl
  | cons step front ih =>
    rw [List.cons_append, get?_cons, get?_cons, Option.bind_assoc]
    exact Option.bind_congr fun child _ => ih child

theorem Node.get?_concat (parents : Path) (last : Step) (node : Node) :
    node.get? (parents ++ [last]) = (node.get? parents).bind fun parent => parent.child? last := by
  rw [get?_append]
  refine Option.bind_congr fun parent _ => ?_
  rw [get?_cons]
  exact Option.bind_fun_some _

/-- A change to one node, which may be refused. -/
abbrev Edit := Node → Except ModelError Node

namespace Node

/-- Changes the value behind a name, which has to be there. -/
def modifyMember (name : String) (edit : Edit) : Edit
  | .structured schema values => do
    let values ← modifyField name (fun _ value => edit value) schema.properties values
    return .structured schema values
  | .map entries =>
    match Entries.resolve? name entries with
    | none => .error (.unknownProperty name)
    | some (key, value) => do return .map (Entries.insert key (← edit value) entries)
  | _ => .error (.invalidPath [.member name])

/-- Changes an item of the list under a name. -/
def modifyItem (name : String) (index : Nat) (edit : Edit) : Edit :=
  modifyMember name fun value =>
    match value with
    | .list element items =>
      match items[index]? with
      | none => .error (.indexOutOfRange name index items.length)
      | some item => do return .list element (items.set index (← edit item))
    | _ => .error (.invalidPath [.item name index])

def modifyChild (step : Step) (edit : Edit) : Edit :=
  match step with
  | .member name => modifyMember name edit
  | .item name index => modifyItem name index edit

/-- Changes the node at the end of a path. -/
def modifyAt : Path → Edit → Edit
  | [], edit => edit
  | step :: path, edit => modifyChild step (modifyAt path edit)

/-- Stores a value under a name. Properties check it; map entries are created on demand. -/
def assign (name : String) (value : Node) : Edit
  | .map entries =>
    .ok (.map (Entries.insert ((Entries.findKey? name entries).getD name) value entries))
  | node => node.setField name value

/-- Stores a value at the last step of a path. -/
def replaceChild (step : Step) (value : Node) : Edit :=
  match step with
  | .member name => assign name value
  | .item name index => modifyItem name index fun _ => .ok value

/-- Appends an item to the list under a name, which is the last step of the path. -/
def pushChild (path : Path) (name : String) (item : Node) : Edit :=
  modifyMember name fun value =>
    match value.push? item with
    | some grown => .ok grown
    | none => .error (.invalidPath path)

end Node

end ModelFeed
