import SyntaxGraph.Config.Setting
import SyntaxGraph.Text.Digits
import SyntaxGraph.Text.Scan

/-!
# Keys

A key leads to a place in the settings: a name, and then names of entries after a dot and indices of
items in brackets. An index below zero counts from the end.
-/

namespace SyntaxGraph.Config

open Text (Scan)

/-- A step of a key. -/
inductive Step where
  | name (s : String)
  | index (i : Int)
deriving DecidableEq, Repr

/-- The way to a place in the settings. -/
abbrev Key := List Step

namespace Key

/-! ### Reading -/

/-- A character of a name. -/
def isNameChar (c : Char) : Bool :=
  c.isAlphanum || c == ' ' || c == '_' || c == '-'

/-- Reads a name. -/
def scanName : Scan Step := do
  return .name (String.ofList (← Scan.run1 isNameChar))

/-- Reads an index of 64 bits, with blanks around it, and the bracket after it. -/
def scanIndex : Scan Step := do
  let isBlank c := c == ' ' || c == '\t'
  discard (Scan.run isBlank)
  let negative ← Scan.char? '-'
  let n : Int := Text.digitsValue 10 (← Scan.run1 Char.isDigit)
  discard (Scan.run isBlank)
  Scan.char ']'
  let n := if negative then -n else n
  if (Int64.ofInt n).toInt == n then return .index n else failure

/-- Reads a key. -/
def scan : Scan Key := do
  let first ← scanName
  let more ← Scan.items do
    if ← Scan.atEnd then return none
    else if ← Scan.char? '.' then return some (← scanName)
    else if ← Scan.char? '[' then return some (← scanIndex)
    else failure
  return first :: more

/-- The key that a text writes. -/
def ofText? (s : String) : Option Key :=
  Scan.whole? scan s.toList

example : ofText? "a.b c[-1].d" = some [.name "a", .name "b c", .index (-1), .name "d"] := by
  decide +kernel
example : ofText? "a..b" = none := by decide +kernel
example : ofText? "a[" = none := by decide +kernel

/-! ### Setting -/

/-- The place of an index in an array of a given size. -/
def place? (i : Int) (size : Nat) : Option Nat :=
  if 0 ≤ i then some i.toNat
  else if i.natAbs ≤ size then some (size - i.natAbs)
  else none

/-- Items followed by as many unset ones as it takes to have one at a place. -/
def reaching (place : Nat) (items : List Setting) : List Setting :=
  items ++ List.replicate (place + 1 - items.length) .unset

/-- Sets a value at the end of a key. On the way whatever is no table or no array becomes one. The
last name counts in lower case, the names before it as they are. -/
def write (value : Setting) : Key → Setting → Option Setting
  | [], _ => some value
  | [.name n], below => some (Setting.lay n value below)
  | .name n :: steps, below => do
    let inner ← write value steps ((below.entries.lookup n).getD .unset)
    return .table (Table.assign n inner below.entries)
  | .index i :: steps, below => do
    let place ← place? i below.items.length
    let items := reaching place below.items
    return .array (items.set place (← write value steps (items.getD place .unset)))

end Key

end SyntaxGraph.Config
