import SyntaxGraph.Text.Blank

/-!
# Formatters

A formatter turns emitted text into the text that is handed out. Formatters are kept in a registry
by name.
-/

namespace SyntaxGraph

/-- Why a text cannot be formatted. -/
inductive FormatError where
  | notFound (name : String)
  | failed (reason : String)
deriving DecidableEq, Repr, Inhabited

/-- The message of an error. -/
def FormatError.message : FormatError → String
  | .notFound name => "Formatter '" ++ name ++ "' not found"
  | .failed reason => "Formatting error: " ++ reason

/-- A step from emitted text to the text that is handed out. -/
structure Formatter where
  name : String
  description : String := ""
  format : String → Except FormatError String

namespace Formatter

/-- Leaves a text as it is. -/
def raw : Formatter where
  name := "none"
  description := "Raw emitted text, one space after every token"
  format := .ok

/-- The words of a text with single spaces between them. -/
def collapse (cs : List Char) : List Char :=
  [' '].intercalate (Text.words cs)

/-- A text without the spaces that stand right before `mark`. -/
def closeUp (mark : Char) : List Char → List Char
  | [] => []
  | c :: cs => if c = ' ' ∧ cs.head? = some mark then closeUp mark cs else c :: closeUp mark cs

/-- The words of a text with single spaces between them, but none before a comma or a semicolon. -/
def tidy (s : String) : String :=
  String.ofList (closeUp ';' (closeUp ',' (collapse s.toList)))

/-- Puts single spaces between words, but none before a comma or a semicolon. -/
def whitespace : Formatter where
  name := "whitespace"
  description := "Single spaces between tokens, none before separators"
  format s := .ok (tidy s)

example : tidy "Call ( a , b ,  c ) ;\n " = "Call ( a, b, c );" := by decide +kernel
example : tidy "   " = "" := by decide +kernel

end Formatter

/-- Formatters by name. -/
structure FormatterRegistry where
  entries : List Formatter := []

namespace FormatterRegistry

/-- Adds a formatter; it replaces the one of its name. -/
def register (r : FormatterRegistry) (f : Formatter) : FormatterRegistry :=
  ⟨r.entries.filter (·.name != f.name) ++ [f]⟩

/-- The registry of the two formatters that are always there. -/
def builtIn : FormatterRegistry :=
  (({} : FormatterRegistry).register .raw).register .whitespace

/-- The formatter of a name. -/
def get? (r : FormatterRegistry) (name : String) : Except FormatError Formatter :=
  match r.entries.find? (·.name == name) with
  | some f => .ok f
  | none => .error (.notFound name)

/-- There is a formatter of the name. -/
def has (r : FormatterRegistry) (name : String) : Bool :=
  r.entries.any (·.name == name)

/-- The names of the formatters in increasing order. -/
def names (r : FormatterRegistry) : List String :=
  (r.entries.map (·.name)).mergeSort fun a b => decide (a ≤ b)

/-- Formats a text with the formatter of a name. -/
def format (r : FormatterRegistry) (s name : String) : Except FormatError String := do
  (← r.get? name).format s

end FormatterRegistry

end SyntaxGraph
