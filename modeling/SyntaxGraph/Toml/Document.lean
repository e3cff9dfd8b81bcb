import SyntaxGraph.Table
import SyntaxGraph.Toml.Basic

/-!
# TOML documents

A document is a table that is put together section by section. While it grows, a table remembers how
it came to be, because that decides who may still add to it: a table that a longer header implies
may get a header of its own once, a table made by a dotted key may only be extended by dotted keys
of the same section, and a table with a header is closed.
-/

namespace SyntaxGraph.Toml

/-- How a table of a growing document came to be. -/
inductive Origin where
  /-- By a header of its own, or as the document. -/
  | header
  /-- As a part of the path of a header. -/
  | implied
  /-- As a part of a dotted key. -/
  | dotted
deriving DecidableEq, Repr, Inhabited

/-- An entry of a growing document. -/
inductive Item where
  | value (v : Value)
  | table (origin : Origin) (entries : List (String × Item))
  /-- An array of tables, of which the last one can still grow. -/
  | tables (done : List Value) (last : List (String × Item))
deriving Repr, Inhabited

/-- The entries of a growing table. -/
abbrev Entries := List (String × Item)

mutual

/-- The value of an entry. -/
def Item.toValue : Item → Value
  | .value v => v
  | .table _ entries => .table (entriesToValues entries)
  | .tables done last => .array (done ++ [.table (entriesToValues last)])

/-- The values of entries. -/
def entriesToValues : List (String × Item) → List (String × Value)
  | [] => []
  | (name, item) :: rest => (name, item.toValue) :: entriesToValues rest

end

namespace Entries

/-- Changes the table at the end of a path, where tables on the way are made if they are missing and
an array of tables stands for its last table. `change` gets to know how the table came to be. A
dotted key does not lead through tables that have a header. -/
def alter (byKey : Bool) (change : Origin → Entries → Option Entries) (origin : Origin) :
    List String → Entries → Option Entries
  | [], table => change origin table
  | name :: path, table =>
    match table.lookup name with
    | none => do
      let origin := if byKey then Origin.dotted else .implied
      return Table.assign name (.table origin (← alter byKey change origin path [])) table
    | some (.value _) => none
    | some (.tables done last) => do
      return Table.assign name (.tables done (← alter byKey change .header path last)) table
    | some (.table origin entries) =>
      if byKey && origin == .header then none
      else do
        return Table.assign name (.table origin (← alter byKey change origin path entries)) table

/-- Gives a dotted key, which ends in `name`, a value. A key has only one value. -/
def insert (path : List String) (name : String) (v : Value) (table : Entries) : Option Entries :=
  alter true
    (fun origin table =>
      if (path.isEmpty || origin == .dotted) && (table.lookup name).isNone then
        some (Table.assign name (.value v) table)
      else none)
    .header path table

end Entries

/-- A dotted key and its value. -/
structure Assignment where
  path : List String
  name : String
  value : Value

/-- What a section of a document adds to: the document itself, the table at a path, or a new table
of the array at a path. -/
inductive Header where
  | document
  | table (path : List String) (name : String)
  | element (path : List String) (name : String)

/-- A section: a header and the assignments under it. -/
structure Section where
  header : Header
  assignments : List Assignment

/-- Makes assignments in a table. -/
def assignAll (assignments : List Assignment) (table : Entries) : Option Entries :=
  assignments.foldlM (fun table a => Entries.insert a.path a.name a.value table) table

/-- Adds a section to a document. -/
def Section.place (s : Section) (document : Entries) : Option Entries :=
  match s.header with
  | .document => assignAll s.assignments document
  | .table path name =>
    Entries.alter false
      (fun _ parent => do
        let before : Entries ← match parent.lookup name with
          | none => some []
          | some (.table .implied entries) => some entries
          | some _ => none
        return Table.assign name (.table .header (← assignAll s.assignments before)) parent)
      .header path document
  | .element path name =>
    Entries.alter false
      (fun _ parent => do
        let before : List Value ← match parent.lookup name with
          | none => some []
          | some (.tables done last) => some (done ++ [.table (entriesToValues last)])
          | some _ => none
        return Table.assign name (.tables before (← assignAll s.assignments [])) parent)
      .header path document

/-- The document that sections make. -/
def assemble (sections : List Section) : Option (List (String × Value)) := do
  return entriesToValues (← sections.foldlM (fun document s => s.place document) [])

end SyntaxGraph.Toml
