import SyntaxGraph.Text.Blank

/-!
# Log filters

A log filter is a list of directives with commas between them. A directive is a level, or the target
that it holds for, a span in brackets, or both, and after an equals sign the level.
-/

namespace SyntaxGraph.CommandLine.LogFilter

/-- A level: a name in any case, or a number. -/
def isLevel (cs : List Char) : Bool :=
  ["off", "error", "warn", "info", "debug", "trace", "0", "1", "2", "3", "4", "5"].any
    (·.toList == cs.map Char.toLower)

/-- The end of a directive: nothing, or an equals sign with a level that may be left out. -/
def isLevelPart : List Char → Bool
  | [] => true
  | '=' :: level => level.isEmpty || isLevel level
  | _ => false

/-- A character that a directive may start with, a bracket aside. Letters of all scripts count. -/
def isTargetStart (c : Char) : Bool :=
  c.isAlphanum || c == '-' || c == ':' || c == '_' || '\x80' ≤ c

/-- A directive. -/
def isDirective (cs : List Char) : Bool :=
  match Text.trimChars cs with
  | [] => false
  | c :: cs =>
    if c == '[' then isLevelPart ((cs.dropWhile (· != ']')).drop 1) && cs.contains ']'
    else
      let afterTarget := cs.dropWhile fun c => c != '=' && c != '['
      match afterTarget with
      | '[' :: span =>
        isTargetStart c && span.contains ']' && isLevelPart ((span.dropWhile (· != ']')).drop 1)
      | rest => isTargetStart c && isLevelPart rest

/-- A log filter. Empty directives are passed over. -/
def isFilter (s : String) : Bool :=
  ((s.splitOn ",").filter fun d => !d.isEmpty).all fun d => isDirective d.toList

end SyntaxGraph.CommandLine.LogFilter
