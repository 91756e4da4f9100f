import ModelFeed.Filter.Token
/-!
# Filters that cover a path

A filter covers a path when its tokens describe the steps one by one, or describe the first of
them up to a `**`. The index of an item is described by the index token after its name; a name
token without one describes every item.
-/

namespace ModelFeed

/-- Whether an index token describes an item. -/
def Token.selectsIndex (wanted : Int) (index : Nat) : Bool :=
  wanted == everyIndex || wanted == index

def Path.coveredBy : Path → List Token → Bool
  | [], tokens => tokens.isEmpty
  | _ :: _, [] => false
  | step :: path, token :: rest =>
    token.isRecursive ||
      match step, rest with
      | .item list index, .index wanted :: rest =>
        token.selectsName list && Token.selectsIndex wanted index && Path.coveredBy path rest
      | step, rest => token.selectsName step.name && Path.coveredBy path rest

/-- Whether a path lies on or below a value that the filter selects. -/
def Path.isWithin (path : Path) (filter : List Token) : Bool :=
  (List.range path.length).any fun n => Path.coveredBy (path.take (n + 1)) filter

/-- Whether a path leads to a parent of values that the filter selects. -/
def Path.isAbove (path : Path) (filter : List Token) : Bool :=
  (List.range (filter.length - 1)).any fun n => Path.coveredBy path (filter.take (n + 1))

end ModelFeed
