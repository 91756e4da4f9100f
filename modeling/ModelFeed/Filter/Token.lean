import ModelFeed.Path
import ModelFeed.Text.Name
/-!
# Filter tokens

A filter is a list of tokens. A name token selects a property or key of that name, `*` any one,
and `**` at the end everything below. An index token selects one item of the list before it, and
the index -1 every item.
-/

namespace ModelFeed

inductive Token where
  | name (text : String)
  | index (value : Int)
deriving DecidableEq, Repr

namespace Token

/-- The index that selects every item. -/
def everyIndex : Int := -1

/-- The largest index a token can hold, `2 ^ 31 - 1`. -/
def maxIndex : Nat := 0x7FFFFFFF

/-- The token `**`. -/
def isRecursive : Token → Bool
  | .name text => text == "**"
  | .index _ => false

/-- Whether a token selects the property or key `key`. -/
def selectsName (token : Token) (key : String) : Bool :=
  match token with
  | .name text => text == "*" || sameName text key
  | .index _ => false

def text : Token → String
  | .name text => text
  | .index value => if value = everyIndex then "[*]" else "[" ++ toString value ++ "]"

@[simp] theorem isRecursive_name (text : String) : (name text).isRecursive = (text == "**") := rfl

@[simp] theorem isRecursive_index (i : Int) : (index i).isRecursive = false := rfl

@[simp] theorem selectsName_name (text key : String) :
    (name text).selectsName key = (text == "*" || sameName text key) := rfl

@[simp] theorem selectsName_index (i : Int) (key : String) :
    (index i).selectsName key = false := rfl

end Token

/-- Tokens that select what a step leads to; an index too large for a token becomes the largest. -/
def Step.tokens : Step → List Token
  | .member name => [.name name]
  | .item list index => [.name list, .index (min index Token.maxIndex : Nat)]

/-- The filter that selects exactly the value at the end of a path. -/
def Path.tokens (path : Path) : List Token :=
  path.flatMap Step.tokens

@[simp] theorem Path.tokens_nil : Path.tokens [] = [] := rfl

theorem Path.tokens_cons (step : Step) (path : Path) :
    Path.tokens (step :: path) = step.tokens ++ Path.tokens path := rfl

end ModelFeed
