import SyntaxGraph.Conversion.Basic
import SyntaxGraph.Emission
import SyntaxGraph.Formatter
import SyntaxGraph.Schema.SharedCatalog
import SyntaxGraph.Tree.Json

/-!
# Synchronization

From the text of a tree to a graph and back to text. Each call starts from scratch: a graph always
gets new ids, and nothing is compared with an earlier graph.
-/

namespace SyntaxGraph

/-- Why a synchronization fails. -/
inductive SyncError where
  | schema (e : Schema.Error)
  | tree (e : Tree.ReadError)
  | format (e : FormatError)
deriving DecidableEq, Repr

/-- The message of an error. -/
def SyncError.message : SyncError → String
  | .schema e => e.message
  | .tree e => e.message
  | .format e => e.message

/-- What synchronization needs: a catalog, the formatters and the name of the one to use. Without a
name the emitted text is handed out as it is. -/
structure Synchronizer where
  catalog : Schema.SharedCatalog
  formatter : Option String := none
  formatters : FormatterRegistry := .builtIn

/-- A graph with the report of the conversion it came from. -/
structure GraphSync where
  graph : Graph
  report : Conversion.Report

namespace Synchronizer

/-- Reads and converts the text of a tree. The schema is loaded before the tree is read. -/
def toGraph (s : Synchronizer) (source : String) (counter : Counter) :
    Except SyncError GraphSync × Synchronizer × Counter :=
  match s.catalog.get with
  | (.error e, catalog) => (.error (.schema e), { s with catalog }, counter)
  | (.ok c, catalog) =>
    match Tree.parse source with
    | .error e => (.error (.tree e), { s with catalog }, counter)
    | .ok tree =>
      let (outcome, counter) := Conversion.convert c tree counter
      (.ok ⟨Graph.ofRoot outcome.root, outcome.report⟩, { s with catalog }, counter)

/-- The text of a graph, formatted as the options say. -/
def toCode (s : Synchronizer) (g : Graph) : Except SyncError String :=
  match s.formatter with
  | some name => (s.formatters.format g.emit name).mapError .format
  | none => .ok g.emit

/-- From the text of a tree to the text of its graph. -/
def roundTrip (s : Synchronizer) (source : String) (counter : Counter) :
    Except SyncError String × Synchronizer × Counter :=
  match s.toGraph source counter with
  | (.ok synced, s, counter) => (s.toCode synced.graph, s, counter)
  | (.error e, s, counter) => (.error e, s, counter)

end Synchronizer

end SyntaxGraph
