import Std.Data.HashMap
import SyntaxGraph.Identity

/-!
# Edges

An edge leads from a field of one node to another node. The order of edges matters: it is the order
of the children of a field. An index gives the children of a field without going through all edges.
-/

namespace SyntaxGraph

/-- A connection from a field of `source` to `target`. -/
structure Edge where
  source : InstanceId
  field : String
  target : InstanceId
deriving DecidableEq, Repr, Inhabited

/-- The targets of the edges from a field of a node, in edge order. -/
def Edge.targetsFrom (edges : List Edge) (source : InstanceId) (field : String) : List InstanceId :=
  (edges.filter fun e => e.source == source && e.field == field).map (·.target)

/-- The children of nodes: for each source, the targets by field. -/
structure EdgeIndex where
  targets : Std.HashMap InstanceId (Std.HashMap String (Array InstanceId))

namespace EdgeIndex

/-- Puts an edge behind those indexed. An edge with an empty field belongs to no field. -/
def add (ix : EdgeIndex) (e : Edge) : EdgeIndex :=
  if e.field.isEmpty then ix
  else ⟨ix.targets.alter e.source fun fields =>
    some ((fields.getD ∅).alter e.field fun targets => some ((targets.getD #[]).push e.target))⟩

/-- The index of a list of edges. -/
def build (edges : List Edge) : EdgeIndex :=
  edges.foldl add ⟨∅⟩

/-- The children of a field, in edge order. -/
def children (ix : EdgeIndex) (source : InstanceId) (field : String) : List InstanceId :=
  (ix.targets[source]?.bind (·[field]?)).elim [] Array.toList

end EdgeIndex

end SyntaxGraph
