import SyntaxGraph.Text.Digits
import SyntaxGraph.Text.Scan

/-!
# TOML strings and blanks

A string is basic, with escapes, or literal, without; either kind may span lines between triple
quotes. A line ends with a line feed, which a carriage return may precede.
-/

namespace SyntaxGraph.Toml

open Text (Scan)

/-! ### Blanks, lines and comments -/

/-- A space or a tab. -/
def isBlank (c : Char) : Bool :=
  c == ' ' || c == '\t'

/-- A character that may stand in a line as it is: no control character but the tab. -/
def isPlain (c : Char) : Bool :=
  c == '\t' || (' ' ≤ c && c != '\x7f')

/-- Passes over blanks. -/
def blanks : Scan Unit :=
  discard (Scan.run isBlank)

/-- Reads the end of a line. -/
def lineEnd : Scan Unit :=
  Scan.char '\n' <|> Scan.word "\r\n"

/-- Passes over a comment, up to the end of its line. -/
def comment : Scan Unit := do
  Scan.char '#'
  discard (Scan.run isPlain)

/-- Passes over what may follow on the line of a statement, and the end of the line or of the
text. -/
def restOfLine : Scan Unit := do
  blanks
  if (← Scan.peek) == some '#' then comment
  if !(← Scan.atEnd) then lineEnd

/-- Passes over blanks, comments and ends of lines. -/
def gap : Scan Unit :=
  Scan.repeatWhile do
    blanks
    match ← Scan.peek with
    | some '#' => comment; lineEnd; return true
    | some '\n' => lineEnd; return true
    | some '\r' => lineEnd; return true
    | _ => return false

/-! ### Strings -/

/-- The character written by `n` hexadecimal digits. -/
def codePoint (n : Nat) : Scan Char := do
  let number := Text.digitsValue 16 (← Scan.exactly n (Text.isDigitOf 16))
  if number.isValidChar then return Char.ofNat number else failure

/-- The character written by what follows a backslash. -/
def escape : Scan Char := do
  match ← Scan.one fun _ => true with
  | 'b' => return '\x08'
  | 't' => return '\t'
  | 'n' => return '\n'
  | 'f' => return '\x0c'
  | 'r' => return '\r'
  | '"' => return '"'
  | '\\' => return '\\'
  | 'u' => codePoint 4
  | 'U' => codePoint 8
  | _ => failure

/-- Passes over a backslash at the end of a line and all blanks and lines after it. -/
def continuation : Scan Unit := do
  Scan.char '\\'
  blanks
  lineEnd
  Scan.repeatWhile do
    match ← Scan.peek with
    | some '\r' => lineEnd; return true
    | some c => if isBlank c || c == '\n' then Scan.char c; return true else return false
    | none => return false

/-- Reads a string on one line after its opening quote. Only in a basic string is a backslash
special. -/
def lineBody (quote : Char) : Scan String := do
  let cs ← Scan.items do
    let c ← Scan.one isPlain
    if c == quote then return none
    else if c == '\\' && quote == '"' then return some (← escape)
    else return some c
  return String.ofList cs

/-- Reads a run of quotes in a string of several lines: one or two are part of it; of three or more
the last three close it, at most two standing before them. -/
def quotes (quote : Char) : Scan (List Char × Bool) := do
  let run ← Scan.run (· == quote)
  if run.length < 3 then return (run, false)
  else
    modify (run.drop 5 ++ ·)
    return (run.drop 3 |>.take 2, true)

/-- A part of a string of several lines: the characters it stands for, and whether it closes the
string. -/
def blockPart (quote : Char) : Scan (List Char × Bool) := do
  match ← Scan.peek with
  | none => failure
  | some '\n' => lineEnd; return (['\n'], false)
  | some '\r' => lineEnd; return (['\n'], false)
  | some c =>
    if c == quote then quotes quote
    else if c == '\\' && quote == '"' then
      (do continuation; return ([], false)) <|> (do Scan.char '\\'; return ([← escape], false))
    else return ([← Scan.one isPlain], false)

/-- Reads parts of a string of several lines up to the one that closes it, at most `n`. -/
def blockParts (quote : Char) : Nat → Scan (List Char)
  | 0 => failure
  | n + 1 => do
    match ← blockPart quote with
    | (cs, true) => return cs
    | (cs, false) => return cs ++ (← blockParts quote n)

/-- Reads a string of several lines after its opening quotes. The end of a line right after them is
left out. -/
def blockBody (quote : Char) : Scan String := do
  if (← Scan.peek) == some '\n' || (← Scan.peek) == some '\r' then lineEnd
  return String.ofList (← blockParts quote ((← get).length + 1))

/-- Reads a string of one line. -/
def lineString : Scan String := do
  let quote ← Scan.one fun c => c == '"' || c == '\''
  lineBody quote

/-- Reads a string. -/
def string : Scan String := do
  let isBlock : List Char → Bool
    | a :: b :: c :: _ => a == b && b == c
    | _ => false
  if isBlock (← get) then
    let quote ← Scan.one fun c => c == '"' || c == '\''
    Scan.char quote
    Scan.char quote
    blockBody quote
  else lineString

end SyntaxGraph.Toml
