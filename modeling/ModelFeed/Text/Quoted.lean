import ModelFeed.Text.Unprintable
/-!
# Quoted text in messages

A message shows a foreign text between quotes, on one line and with every character visible:
quotes, backslashes and line ends are escaped, and an unprintable character is shown by its number.
-/

namespace ModelFeed

/-- A character of a quoted text. -/
def quotedChar (c : Char) : List Char :=
  if c = '"' then ['\\', '"']
  else if c = '\\' then ['\\', '\\']
  else if c = '\n' then ['\\', 'n']
  else if c = '\r' then ['\\', 'r']
  else if c = '\t' then ['\\', 't']
  else if c = '\x00' then ['\\', '0']
  else if isUnprintable c then '\\' :: 'u' :: '{' :: Nat.toDigits 16 c.toNat ++ ['}']
  else [c]

def quoted (s : String) : String :=
  String.ofList ('"' :: s.toList.flatMap quotedChar ++ ['"'])

end ModelFeed
