/-!
# Scanners

A scanner reads a part of a text and leaves the rest, or fails. Two scanners are tried one after the
other with `<|>`, the second one from where the first one started.
-/

namespace SyntaxGraph.Text

/-- Reads a part of a text and leaves the rest, or fails. -/
abbrev Scan := StateT (List Char) Option

namespace Scan

/-- The next character, which is not read yet. -/
def peek : Scan (Option Char) :=
  return (← get).head?

/-- Reads a character of a class. -/
def one (p : Char → Bool) : Scan Char := do
  match ← get with
  | c :: cs => if p c then set cs; return c else failure
  | [] => failure

/-- Reads a given character. -/
def char (c : Char) : Scan Unit :=
  discard (one (· == c))

/-- Reads a given character if it comes next, and says whether it did. -/
def char? (c : Char) : Scan Bool := do
  if (← peek) == some c then char c; return true else return false

/-- Reads a given word. -/
def word (w : String) : Scan Unit :=
  w.toList.forM char

/-- Reads the longest run of characters of a class. -/
def run (p : Char → Bool) : Scan (List Char) := do
  let cs ← get
  set (cs.dropWhile p)
  return cs.takeWhile p

/-- Reads the longest run of characters of a class, which has at least one. -/
def run1 (p : Char → Bool) : Scan (List Char) := do
  return (← one p) :: (← run p)

/-- Reads exactly `n` characters of a class. -/
def exactly (n : Nat) (p : Char → Bool) : Scan (List Char) :=
  (List.replicate n p).mapM one

/-- Nothing is left. -/
def atEnd : Scan Bool :=
  return (← get).isEmpty

/-- Runs a scanner that gives one item at a time until it gives none, at most `n` times. -/
def repeatAtMost (step : Scan (Option α)) : Nat → Scan (List α)
  | 0 => failure
  | n + 1 => do
    match ← step with
    | some a => return a :: (← repeatAtMost step n)
    | none => return []

/-- Runs a scanner that gives one item at a time until it gives none. Every item takes at least one
character, so there are no more items than characters. -/
def items (step : Scan (Option α)) : Scan (List α) := do
  repeatAtMost step ((← get).length + 1)

/-- Runs a scanner until it says that there is no more to read. -/
def repeatWhile (step : Scan Bool) : Scan Unit :=
  discard (items do return if ← step then some () else none)

/-- The result of a scanner that reads the whole of a text. -/
def whole? (scan : Scan α) (cs : List Char) : Option α :=
  match scan cs with
  | some (a, []) => some a
  | _ => none

end Scan

end SyntaxGraph.Text
