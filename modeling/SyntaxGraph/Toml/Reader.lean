import SyntaxGraph.Toml.Document
import SyntaxGraph.Toml.Number
import SyntaxGraph.Toml.Text

/-!
# Reading TOML

A document is a list of lines: assignments, headers, comments and empty lines. An inline table stands
on one line and has no comma after its last entry; an array may span lines and have one. Arrays and
inline tables nest no deeper than 79 levels, and no key has more than 79 parts.
-/

namespace SyntaxGraph.Toml

open Text (Scan)

/-- The greatest depth of arrays and inline tables, and the greatest number of parts of a key. -/
def deepest : Nat := 79

/-! ### Keys -/

/-- A character of a key without quotes. -/
def isKeyChar (c : Char) : Bool :=
  c.isAlphanum || c == '_' || c == '-'

/-- Reads one part of a key. -/
def keyPart : Scan String := do
  blanks
  match ← Scan.peek with
  | some '"' => lineString
  | some '\'' => lineString
  | _ => return String.ofList (← Scan.run1 isKeyChar)

/-- Reads a key: the parts before the last one, and the last one. -/
def key : Scan (List String × String) := do
  let first ← keyPart
  blanks
  let more ← Scan.items do
    if ← Scan.char? '.' then
      let part ← keyPart
      blanks
      return some part
    else return none
  let parts := first :: more
  if deepest < parts.length then failure
  return (parts.dropLast, parts.getLastD "")

/-! ### Values -/

/-- Reads a value that holds no other values. -/
def scalar : Scan Value := do
  match ← Scan.peek with
  | some '"' => return .text (← string)
  | some '\'' => return .text (← string)
  | some 't' => Scan.word "true"; return .bool true
  | some 'f' => Scan.word "false"; return .bool false
  | _ =>
    (do return .date (← date)) <|> (do return .real (← real)) <|> (do return .integer (← integer))

/-- Reads an assignment whose value is read by `value`. -/
def assignment (value : Scan Value) : Scan Assignment := do
  let (path, name) ← key
  Scan.char '='
  blanks
  return ⟨path, name, ← value⟩

/-- Reads an array whose items are read by `value`. -/
def array (value : Scan Value) : Scan Value := do
  Scan.char '['
  gap
  let items ← Scan.items do
    if ← Scan.char? ']' then return none
    let item ← value
    gap
    if ← Scan.char? ',' then gap
    else if (← Scan.peek) != some ']' then failure
    return some item
  return .array items

/-- Reads an inline table whose values are read by `value`. -/
def inlineTable (value : Scan Value) : Scan Value := do
  Scan.char '{'
  blanks
  if ← Scan.char? '}' then return .table []
  let first ← assignment value
  blanks
  let more ← Scan.items do
    if ← Scan.char? '}' then return none
    Scan.char ','
    let next ← assignment value
    blanks
    return some next
  match assignAll (first :: more) [] with
  | some entries => return .table (entriesToValues entries)
  | none => failure

/-- Reads a value that nests at most `room` levels. -/
def value : Nat → Scan Value
  | 0 => scalar
  | room + 1 => do
    match ← Scan.peek with
    | some '[' => array (value room)
    | some '{' => inlineTable (value room)
    | _ => scalar

/-! ### Sections -/

/-- A line of a document. -/
inductive Line where
  | empty
  | assignment (a : Assignment)
  | header (h : Header)

/-- Reads a header. -/
def header : Scan Header := do
  Scan.char '['
  if ← Scan.char? '[' then
    let (path, name) ← key
    Scan.word "]]"
    return .element path name
  else
    let (path, name) ← key
    Scan.char ']'
    return .table path name

/-- Reads a line. -/
def line : Scan Line := do
  blanks
  let content : Line ← match ← Scan.peek with
    | none => pure .empty
    | some '#' => pure .empty
    | some '\n' => pure .empty
    | some '\r' => pure .empty
    | some '[' => do pure (.header (← header))
    | some _ => do pure (.assignment (← assignment (value deepest)))
  restOfLine
  return content

/-- Reads all lines. -/
def lines : Scan (List Line) :=
  Scan.items do
    if ← Scan.atEnd then return none else return some (← line)

/-- Groups lines into sections, of which `current` is the one that is being read. -/
def sections (current : Section) : List Line → List Section
  | [] => [current]
  | .empty :: ls => sections current ls
  | .assignment a :: ls => sections { current with assignments := current.assignments ++ [a] } ls
  | .header h :: ls => current :: sections ⟨h, []⟩ ls

/-- Reads a document. A byte order mark may stand at its start. -/
def read? (text : String) : Option (List (String × Value)) := do
  let cs := match text.toList with
    | '\uFEFF' :: cs => cs
    | cs => cs
  assemble (sections ⟨.document, []⟩ (← Scan.whole? lines cs))

end SyntaxGraph.Toml
