import SyntaxGraph.Converted
import SyntaxGraph.Graph.Edge

/-!
# Node graphs

A graph has one node for each instance and an ordered list of edges. A node may also be a
placeholder without an instance. Nodes are kept in the order in which they were added; no two have
the same id.
-/

namespace SyntaxGraph

/-- A node of a graph. A placeholder has no instance. -/
structure GraphNode where
  id : InstanceId
  state : Option Instance
deriving DecidableEq, Repr, Inhabited

/-- A graph of nodes and edges. -/
structure Graph where
  nodes : List GraphNode := []
  edges : List Edge := []
deriving DecidableEq, Repr, Inhabited

namespace Graph

/-- The node of an id. -/
def node? (g : Graph) (id : InstanceId) : Option GraphNode :=
  g.nodes.find? (·.id == id)

/-- The instance of a node. -/
def state? (g : Graph) (id : InstanceId) : Option Instance :=
  (g.node? id).bind (·.state)

/-- The id is that of a node. -/
def contains (g : Graph) (id : InstanceId) : Bool :=
  (g.node? id).isSome

/-- The number of nodes. -/
def size (g : Graph) : Nat :=
  g.nodes.length

/-- The children of a field, in edge order. -/
def children (g : Graph) (source : InstanceId) (field : String) : List InstanceId :=
  Edge.targetsFrom g.edges source field

/-- The nodes that no edge leads to, in order. -/
def roots (g : Graph) : List InstanceId :=
  (g.nodes.map (·.id)).filter fun id => !g.edges.any (·.target == id)

/-- Puts a node in the place of the one with its id, or else at the end. -/
def putNode (n : GraphNode) : List GraphNode → List GraphNode
  | [] => [n]
  | m :: ms => if m.id = n.id then n :: ms else m :: putNode n ms

/-- Adds an instance; it replaces the node with its id. -/
def insert (g : Graph) (i : Instance) : Graph :=
  { g with nodes := putNode ⟨i.id, some i⟩ g.nodes }

/-- The edges from a converted node to its children. -/
def linkEdges (n : ConvertedNode) : List Edge :=
  n.links.map fun l => ⟨n.id, l.1, l.2.id⟩

/-- The graph of a converted tree: one node for each instance, one edge for each child. -/
def ofConverted (root : ConvertedNode) : Graph where
  nodes := (root.instances.foldl insert {}).nodes
  edges := root.subtrees.flatMap linkEdges

/-- The graph of a conversion, empty when the root was skipped. -/
def ofRoot : Option ConvertedNode → Graph
  | some root => ofConverted root
  | none => {}

/-- The graphs have the same nodes, in any order, and the same edges in the same order. -/
def same (g h : Graph) : Bool :=
  g.size == h.size && g.nodes.all (fun n => h.node? n.id == some n) && g.edges == h.edges

end Graph

end SyntaxGraph
