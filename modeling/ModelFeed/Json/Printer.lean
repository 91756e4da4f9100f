import ModelFeed.Json.Basic
/-!
# Compact JSON text

Documents are written without blanks, members in their order. In strings the quote, the backslash
and the controls below U+0020 are escaped; every other character stands for itself.
-/

namespace ModelFeed.Json

/-- A character inside a string. -/
def charEscape (c : Char) : List Char :=
  if c = '"' then ['\\', '"']
  else if c = '\\' then ['\\', '\\']
  else if c = '\x08' then ['\\', 'b']
  else if c = '\x0c' then ['\\', 'f']
  else if c = '\n' then ['\\', 'n']
  else if c = '\r' then ['\\', 'r']
  else if c = '\t' then ['\\', 't']
  else if c.toNat < 0x20 then
    ['\\', 'u', '0', '0', Nat.digitChar (c.toNat / 16), Nat.digitChar (c.toNat % 16)]
  else [c]

def stringChars (s : String) : List Char :=
  '"' :: s.toList.flatMap charEscape ++ ['"']

/-- Parts with commas between them. -/
def joined : List (List Char) → List Char
  | [] => []
  | [part] => part
  | part :: parts => part ++ ',' :: joined parts

def boolChars : Bool → List Char
  | true => ['t', 'r', 'u', 'e']
  | false => ['f', 'a', 'l', 's', 'e']

def nullChars : List Char :=
  ['n', 'u', 'l', 'l']

def arrayChars (items : List (List Char)) : List Char :=
  '[' :: joined items ++ [']']

def memberChars (key : String) (value : List Char) : List Char :=
  stringChars key ++ ':' :: value

def objectChars (members : List (List Char)) : List Char :=
  '{' :: joined members ++ ['}']

mutual

def chars : Json → List Char
  | .null => nullChars
  | .bool b => boolChars b
  | .number n => n.chars
  | .string s => stringChars s
  | .array items => arrayChars (itemsChars items)
  | .object members => objectChars (membersChars members)

def itemsChars : List Json → List (List Char)
  | [] => []
  | item :: items => item.chars :: itemsChars items

def membersChars : List (String × Json) → List (List Char)
  | [] => []
  | (key, value) :: members => memberChars key value.chars :: membersChars members

end

def text (j : Json) : String :=
  String.ofList j.chars

/-- The text of an object from the texts of its values. -/
def objectText (members : List (String × List Char)) : String :=
  String.ofList (objectChars (members.map fun (key, value) => memberChars key value))

end ModelFeed.Json
