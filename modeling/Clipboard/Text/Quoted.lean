import Clipboard.Text.Unshown

/-!
# Quoted texts

A text within double quotes in which every character can be seen: quotes and
backslashes have a backslash before them, tab, line feed, carriage return and
NUL have short forms, and every other character that does not show is given by
its number.
-/

namespace Clipboard.Quoted

/-- A number in hexadecimal, without leading zeros. -/
def hex (n : Nat) : List Char := (Nat.toDigits 16 n).map Char.toLower

/-- How a character stands in a quoted text. -/
def quoteChar (c : Char) : List Char :=
  if c = '"' then ['\\', '"']
  else if c = '\\' then ['\\', '\\']
  else if c = '\t' then ['\\', 't']
  else if c = '\n' then ['\\', 'n']
  else if c = '\r' then ['\\', 'r']
  else if c.toNat = 0 then ['\\', '0']
  else if Unshown.isUnshown c then ['\\', 'u', '\x7b'] ++ hex c.toNat ++ ['\x7d']
  else [c]

/-- The text in quotes. -/
def quote (text : String) : String :=
  String.ofList ('"' :: text.toList.flatMap quoteChar ++ ['"'])

end Clipboard.Quoted
