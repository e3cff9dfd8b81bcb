import SyntaxGraph.Decimal.Shortest
import SyntaxGraph.Table
import SyntaxGraph.Text.Lowercase
import SyntaxGraph.Toml.Basic

/-!
# Settings

Settings are tables of values that are laid over each other. Names count in lower case. A table that
is laid over a table is merged with it, entry by entry; everything else replaces what was there.
-/

namespace SyntaxGraph

/-- A value of a configuration. -/
inductive Setting where
  | unset
  | bool (b : Bool)
  | integer (n : Int)
  | real (x : Float)
  | text (s : String)
  | array (items : List Setting)
  | table (entries : List (String × Setting))
deriving Repr, Inhabited

namespace Setting

/-! ### From TOML -/

mutual

/-- The setting of a TOML value. A date is a text. -/
def ofToml : Toml.Value → Setting
  | .text s => .text s
  | .integer n => .integer n
  | .real x => .real x
  | .bool b => .bool b
  | .date s => .text s
  | .array items => .array (ofTomlItems items)
  | .table entries => .table (ofTomlEntries entries)

/-- The settings of TOML values. -/
def ofTomlItems : List Toml.Value → List Setting
  | [] => []
  | v :: vs => ofToml v :: ofTomlItems vs

/-- The settings of the entries of a TOML table. -/
def ofTomlEntries : List (String × Toml.Value) → List (String × Setting)
  | [] => []
  | (name, v) :: es => (name, ofToml v) :: ofTomlEntries es

end

/-! ### Merging -/

/-- The entries of a table; anything else has none. -/
def entries : Setting → List (String × Setting)
  | .table es => es
  | _ => []

/-- The items of an array; anything else has none. -/
def items : Setting → List Setting
  | .array xs => xs
  | _ => []

mutual

/-- Lays a value of a name over a table. What is no table becomes one. -/
def lay (name : String) (value : Setting) (below : Setting) : Setting :=
  let name := Text.lowercase name
  match value with
  | .table upper =>
    let lower := (below.entries.lookup name).getD (.table [])
    .table (Table.assign name (layAll upper lower) below.entries)
  | value => .table (Table.assign name value below.entries)

/-- Lays all entries of a table over a value. -/
def layAll : List (String × Setting) → Setting → Setting
  | [], below => below
  | (name, value) :: upper, below => layAll upper (lay name value below)

end

/-! ### Reading values -/

/-- A text, or the text of a number or a truth value. -/
def toText? : Setting → Option String
  | .text s => some s
  | .bool b => some (if b then "true" else "false")
  | .integer n => some (toString n)
  | .real x => some (Decimal.text x)
  | _ => none

/-- A truth value, a number that is zero or not, or one of the words for a truth value in any
case. -/
def toBool? : Setting → Option Bool
  | .bool b => some b
  | .integer n => some (n != 0)
  | .real x => some (x != 0)
  | .text s =>
    let word := Text.lowercase s
    if ["1", "true", "on", "yes"].contains word then some true
    else if ["0", "false", "off", "no"].contains word then some false
    else none
  | _ => none

/-- A member of a record: of a table by its name, of an array by its place. -/
def member? (name : String) (place : Nat) : Setting → Option Setting
  | .table es => es.lookup name
  | .array xs => xs[place]?
  | _ => none

end Setting

end SyntaxGraph
