import SyntaxGraph.Instance

/-!
# Converted trees

The result of converting a concrete tree: an instance with its converted children, field by field.
The fields follow the order of the schema, and a field is there only when one of its children was
converted.
-/

namespace SyntaxGraph

/-- An instance with its converted children. -/
inductive ConvertedNode where
  | mk (state : Instance) (children : List (String × List ConvertedNode))
deriving Inhabited

namespace ConvertedNode

/-- The instance at the root. -/
def state : ConvertedNode → Instance
  | .mk s _ => s

/-- The converted children, field by field. -/
def children : ConvertedNode → List (String × List ConvertedNode)
  | .mk _ cs => cs

/-- The id of the instance at the root. -/
def id (n : ConvertedNode) : InstanceId :=
  n.state.id

/-- The converted children of a field. -/
def childrenOf (n : ConvertedNode) (field : String) : List ConvertedNode :=
  (n.children.lookup field).getD []

/-- The children, each with its field, in order. -/
def links (n : ConvertedNode) : List (String × ConvertedNode) :=
  n.children.flatMap fun f => f.2.map (f.1, ·)

/-- Adds a child at the end of a field, which is added at the end when it is not there. -/
def attach (field : String) (child : ConvertedNode) :
    List (String × List ConvertedNode) → List (String × List ConvertedNode)
  | [] => [(field, [child])]
  | (f, cs) :: fs =>
    if f = field then (f, cs ++ [child]) :: fs else (f, cs) :: attach field child fs

mutual

/-- All nodes of the tree, each before its children. -/
def subtrees : ConvertedNode → List ConvertedNode
  | .mk s cs => .mk s cs :: subtreesOfFields cs

/-- All nodes below the fields. -/
def subtreesOfFields : List (String × List ConvertedNode) → List ConvertedNode
  | [] => []
  | (_, ns) :: fs => subtreesOfNodes ns ++ subtreesOfFields fs

/-- All nodes of the trees, in order. -/
def subtreesOfNodes : List ConvertedNode → List ConvertedNode
  | [] => []
  | n :: ns => n.subtrees ++ subtreesOfNodes ns

end

/-- The instances of the tree, each before those of its children. -/
def instances (n : ConvertedNode) : List Instance :=
  n.subtrees.map state

/-- The number of instances in the tree. -/
def count (n : ConvertedNode) : Nat :=
  n.subtrees.length

theorem length_instances (n : ConvertedNode) : n.instances.length = n.count := by
  simp [instances, count]

theorem sizeOf_lt_of_mem_links {n c : ConvertedNode} {field : String} (h : (field, c) ∈ n.links) :
    sizeOf c < sizeOf n := by
  cases n with
  | mk s cs =>
    simp only [links, children, List.mem_flatMap, List.mem_map, Prod.mk.injEq] at h
    obtain ⟨⟨f, ns⟩, hf, x, hx, -, rfl⟩ := h
    have h₁ := List.sizeOf_lt_of_mem hf
    have h₂ : sizeOf x < sizeOf ns := List.sizeOf_lt_of_mem hx
    simp only [Prod.mk.sizeOf_spec, mk.sizeOf_spec] at h₁ ⊢
    omega

end ConvertedNode

end SyntaxGraph
