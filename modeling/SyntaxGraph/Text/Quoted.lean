import SyntaxGraph.Text.Quoted.Table

/-!
# Quoted texts

A text between double quotes in which a quote and a backslash follow a backslash, the four common
control characters have a letter, and every other character without a visible form is shown by
its number in lower-case hexadecimal digits between braces.
-/

namespace SyntaxGraph.Text

namespace Quoted

/-- The number of a character between braces. -/
def numbered (c : Char) : List Char :=
  "\\u\x7b".toList ++ Nat.toDigits 16 c.toNat ++ ['}']

/-- How one character stands between the quotes. -/
def encodeChar (c : Char) : List Char :=
  if c = '"' then ['\\', '"']
  else if c = '\\' then ['\\', '\\']
  else if c = '\n' then ['\\', 'n']
  else if c = '\r' then ['\\', 'r']
  else if c = '\t' then ['\\', 't']
  else if c = '\x00' then ['\\', '0']
  else if isHidden c then numbered c
  else [c]

end Quoted

/-- The text between double quotes. -/
def quoted (s : String) : String :=
  String.ofList ('"' :: s.toList.flatMap Quoted.encodeChar ++ ['"'])

end SyntaxGraph.Text
