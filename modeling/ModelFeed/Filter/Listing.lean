import ModelFeed.Filter.Parser
/-!
# Lists of filters

Filters in one text are separated by commas, bars, line ends and spaces; empty entries are left
out. A comma inside an index selector separates nothing, so an index list is reported as such and
not cut in two. A selector is open from `[` to the next `]` or to the next separator that splits.
-/

namespace ModelFeed.Filter

def isListSeparator (c : Char) : Bool :=
  c == ',' || c == '|' || c == '\r' || c == '\n' || c == ' '

/-- The entries of a text, which starts inside a selector if `insideSelector` holds. -/
def entriesFrom (insideSelector : Bool) : List Char → List (List Char)
  | [] => [[]]
  | c :: cs =>
    if c = '[' then consPiece c (entriesFrom true cs)
    else if c = ']' then consPiece c (entriesFrom false cs)
    -- The comma of an index list stays in its entry.
    else if c = ',' ∧ insideSelector = true then consPiece c (entriesFrom true cs)
    else if isListSeparator c then [] :: entriesFrom false cs
    else consPiece c (entriesFrom insideSelector cs)

/-- The entries of a text that are not empty. -/
def entries (text : String) : List String :=
  ((entriesFrom false text.toList).filter fun entry => !entry.isEmpty).map String.ofList

/-- The filters of a text; the first bad entry decides the error. -/
def parseList (text : String) : Except FilterError (List Filter) :=
  (entries text).mapM (parse .path)

end ModelFeed.Filter
