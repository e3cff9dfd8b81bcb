import SyntaxGraph.Json.Basic

/-!
# Writing JSON

A value is written without white space, or with one line for each element and member and two spaces
for each level. Each function puts the text of a value in front of the text that follows it.
-/

namespace SyntaxGraph.Json

/-- A digit of a lower-case hexadecimal number. -/
def hexDigit (n : Nat) : Char :=
  Nat.digitChar n

/-- How one character stands in a string literal. -/
def escapeChar (c : Char) : List Char :=
  if c = '"' then ['\\', '"']
  else if c = '\\' then ['\\', '\\']
  else if c = '\x08' then ['\\', 'b']
  else if c = '\x0c' then ['\\', 'f']
  else if c = '\n' then ['\\', 'n']
  else if c = '\r' then ['\\', 'r']
  else if c = '\t' then ['\\', 't']
  else if c < ' ' then ['\\', 'u', '0', '0', hexDigit (c.toNat / 16), hexDigit (c.toNat % 16)]
  else [c]

/-- A string literal in front of `rest`. A literal without a text is written empty. -/
def writeText (s : Option String) (rest : List Char) : List Char :=
  '"' :: ((s.getD "").toList.flatMap escapeChar ++ '"' :: rest)

/-- A value that is neither an array nor an object in front of `rest`; the fault of a text is written
as `null`. -/
def writeScalar (rest : List Char) : Json → List Char
  | .bool true => "true".toList ++ rest
  | .bool false => "false".toList ++ rest
  | .number literal => literal.toList ++ rest
  | .text s => writeText s rest
  | _ => "null".toList ++ rest

/-! ### Without white space -/

mutual

/-- A value in front of `rest`. -/
def compactTo (rest : List Char) : Json → List Char
  | .array xs => '[' :: compactElements (']' :: rest) xs
  | .object ms => '{' :: compactMembers ('}' :: rest) ms
  | .null => writeScalar rest .null
  | .bool b => writeScalar rest (.bool b)
  | .number literal => writeScalar rest (.number literal)
  | .text s => writeScalar rest (.text s)
  | .broken => writeScalar rest .broken

/-- Elements with commas between them in front of `rest`. -/
def compactElements (rest : List Char) : List Json → List Char
  | [] => rest
  | [x] => compactTo rest x
  | x :: y :: xs => compactTo (',' :: compactElements rest (y :: xs)) x

/-- Members with commas between them in front of `rest`. -/
def compactMembers (rest : List Char) : List (Option String × Json) → List Char
  | [] => rest
  | [(k, x)] => writeText k (':' :: compactTo rest x)
  | (k, x) :: m :: ms => writeText k (':' :: compactTo (',' :: compactMembers rest (m :: ms)) x)

end

/-- The text of a value without white space. -/
def compact (j : Json) : String :=
  String.ofList (compactTo [] j)

/-! ### One line for each element and member -/

/-- A line break and the indentation of a level in front of `rest`. -/
def newLine (level : Nat) (rest : List Char) : List Char :=
  '\n' :: (List.replicate (2 * level) ' ' ++ rest)

mutual

/-- A value at a level in front of `rest`. -/
def prettyTo (level : Nat) (rest : List Char) : Json → List Char
  | .array [] => '[' :: ']' :: rest
  | .array (x :: xs) =>
    '[' :: newLine (level + 1)
      (prettyTo (level + 1) (prettyElements (level + 1) (newLine level (']' :: rest)) xs) x)
  | .object [] => '{' :: '}' :: rest
  | .object ((k, x) :: ms) =>
    '{' :: newLine (level + 1) (writeText k (':' :: ' ' ::
      prettyTo (level + 1) (prettyMembers (level + 1) (newLine level ('}' :: rest)) ms) x))
  | .null => writeScalar rest .null
  | .bool b => writeScalar rest (.bool b)
  | .number literal => writeScalar rest (.number literal)
  | .text s => writeScalar rest (.text s)
  | .broken => writeScalar rest .broken

/-- The elements after the first in front of `rest`. -/
def prettyElements (level : Nat) (rest : List Char) : List Json → List Char
  | [] => rest
  | x :: xs => ',' :: newLine level (prettyTo level (prettyElements level rest xs) x)

/-- The members after the first in front of `rest`. -/
def prettyMembers (level : Nat) (rest : List Char) : List (Option String × Json) → List Char
  | [] => rest
  | (k, x) :: ms =>
    ',' :: newLine level (writeText k (':' :: ' ' ::
      prettyTo level (prettyMembers level rest ms) x))

end

/-- The text of a value with one line for each element and member. -/
def pretty (j : Json) : String :=
  String.ofList (prettyTo 0 [] j)

end SyntaxGraph.Json
