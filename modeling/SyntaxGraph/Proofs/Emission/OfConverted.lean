import SyntaxGraph.Proofs.Emission.Meaning
import SyntaxGraph.Proofs.Graph.OfConverted

/-!
# The text of a converted tree

The text of a converted tree by recursion on the tree, without ids and edges. Its graph has the same
text when no id and no field of a node comes twice: the children that the edge index gives are the
converted ones, and no node is found on the path of its own ancestors.
-/

namespace SyntaxGraph.Emission

/-- The text of a converted tree. A field without a name has no children. -/
def convertedText (n : ConvertedNode) : String :=
  String.join (renderUnits (fun f => if f.name.isEmpty then "" else childrenText f.kind
    ((n.childrenOf f.name).attach.map fun m => convertedText m.1)) n.state.fields)
termination_by sizeOf n
decreasing_by
  exact ConvertedNode.sizeOf_lt_of_mem_kids (ConvertedNode.mem_kids_of_mem_childrenOf m.2)

/-- The text of a node field of a converted node. -/
def convertedFieldText (n : ConvertedNode) (f : FieldSpec) : String :=
  if f.name.isEmpty then "" else childrenText f.kind ((n.childrenOf f.name).map convertedText)

theorem convertedText_eq (n : ConvertedNode) :
    convertedText n = String.join (n.state.fields.map (renderUnit (convertedFieldText n))) := by
  rw [convertedText, renderUnits_eq_map]
  simp only [List.attach_map_val (f := convertedText)]
  rfl

section OfConverted

variable {root : ConvertedNode}

/-- **The text of a node of the graph.** By induction on the tree: the path holds no id of the nodes
below, so no node is cut. -/
theorem nodeText_ofConverted (h : root.Simple) {n : ConvertedNode} (hn : n ∈ root.subtrees)
    {path : List InstanceId} (hpath : ∀ m ∈ n.subtrees, m.id ∉ path) :
    nodeText (.ofGraph (.ofConverted root)) (.build (Graph.ofConverted root).edges) path n.id =
      convertedText n := by
  have hsimple := h.subtree hn
  rw [nodeText_of_some (hpath n n.self_mem_subtrees) (Graph.state?_ofGraph_ofConverted h hn),
    convertedText_eq]
  congr 3
  funext f
  rw [fieldText, convertedFieldText, EdgeIndex.children_build, Graph.targetsFrom_ofConverted h hn]
  split
  · simp
  · congr 1
    rw [List.map_map]
    refine List.map_congr_left fun m hm => ?_
    have hkid := ConvertedNode.mem_kids_of_mem_childrenOf hm
    have hsub := ConvertedNode.sublist_subtrees (ConvertedNode.mem_subtrees_of_mem_kids hkid)
    have := ConvertedNode.sizeOf_lt_of_mem_kids hkid
    refine nodeText_ofConverted h
      ((ConvertedNode.sublist_subtrees hn).subset (ConvertedNode.mem_subtrees_of_mem_kids hkid)) ?_
    intro k hk hmem
    rcases List.mem_cons.1 hmem with hid | hmem
    · exact hsimple.root_id_notMem
        (hid ▸ List.mem_map_of_mem (List.mem_flatMap.2 ⟨m, hkid, hk⟩))
    · exact hpath k (hsub.subset hk) hmem
termination_by sizeOf n

theorem emit_eq_join_nodeText (roots : List InstanceId) (store : Store) (edges : List Edge) :
    emit roots store edges = String.join (roots.map (nodeText store (.build edges) [])) :=
  out_run_nodes store (.build edges) roots

theorem emit_eq_join (g : Graph) :
    g.emit = String.join (g.roots.map (nodeText (.ofGraph g) (.build g.edges) [])) :=
  emit_eq_join_nodeText g.roots (.ofGraph g) g.edges

/-- **The text of the graph is the text of the tree.** -/
theorem emit_ofConverted (h : root.Simple) : (Graph.ofConverted root).emit = convertedText root := by
  have hroot : nodeText (.ofGraph (.ofConverted root)) (.build (Graph.ofConverted root).edges) []
      root.id = convertedText root := nodeText_ofConverted h root.self_mem_subtrees (by simp)
  rw [emit_eq_join, Graph.roots_ofConverted h]
  simp [hroot]

theorem emit_empty : ({} : Graph).emit = "" := by
  rw [emit_eq_join]
  rfl

end OfConverted

end SyntaxGraph.Emission
