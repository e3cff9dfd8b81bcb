import SyntaxGraph.Proofs.Converted
import SyntaxGraph.Proofs.Graph.Indexing
import SyntaxGraph.Store

/-!
# The graph of a converted tree

When no id and no field of a node comes twice in a converted tree, its graph is the tree: the nodes
are the instances in order, the children of a field are the converted children, and the only node
that no edge leads to is the root.
-/

namespace SyntaxGraph

namespace Graph

/-! ### Nodes -/

theorem putNode_new {n : GraphNode} {ns : List GraphNode} (h : n.id ∉ ns.map (·.id)) :
    putNode n ns = ns ++ [n] := by
  induction ns with
  | nil => rfl
  | cons m ns ih =>
    simp only [List.map_cons, List.mem_cons, not_or] at h
    rw [putNode, if_neg (Ne.symm h.1), ih h.2, List.cons_append]

theorem nodes_foldl_insert (is : List Instance) {g : Graph}
    (h : (g.nodes.map (·.id) ++ is.map (·.id)).Nodup) :
    (is.foldl insert g).nodes = g.nodes ++ is.map fun i => ⟨i.id, some i⟩ := by
  induction is generalizing g with
  | nil => simp
  | cons i is ih =>
    have hnew : i.id ∉ g.nodes.map (·.id) := by
      rw [List.nodup_append] at h
      intro hmem
      exact h.2.2 _ hmem _ (by simp) rfl
    have hnodes : (g.insert i).nodes = g.nodes ++ [⟨i.id, some i⟩] := putNode_new hnew
    rw [List.foldl_cons, ih (by simpa [hnodes] using h), hnodes]
    simp

section OfConverted

variable {root : ConvertedNode}

/-- The nodes of the graph are the instances of the tree, in order. -/
theorem nodes_ofConverted (h : root.Simple) :
    (ofConverted root).nodes = root.instances.map fun i => ⟨i.id, some i⟩ := by
  have hids : (root.instances.map (·.id)).Nodup := by
    rw [ConvertedNode.instances, List.map_map]
    exact h.ids
  have hnodes := nodes_foldl_insert root.instances (g := {}) (by simpa using hids)
  simpa [ofConverted] using hnodes

/-- Every node of the tree is stored under its id. -/
theorem state?_ofGraph_ofConverted (h : root.Simple) {n : ConvertedNode}
    (hn : n ∈ root.subtrees) : (Store.ofGraph (ofConverted root)).state? n.id = some n.state := by
  have hstore : Store.ofGraph (ofConverted root) =
      root.subtrees.map fun m => (m.id, m.state) := by
    rw [Store.ofGraph, nodes_ofConverted h, List.filterMap_map, ConvertedNode.instances,
      List.filterMap_map]
    simp [Function.comp_def, ConvertedNode.id]
  rw [Store.state?, hstore]
  refine Table.lookup_of_mem ?_ (List.mem_map_of_mem hn)
  rw [List.map_map]
  exact h.ids

/-! ### Edges -/

theorem targetsFrom_append (es fs : List Edge) (source : InstanceId) (field : String) :
    Edge.targetsFrom (es ++ fs) source field =
      Edge.targetsFrom es source field ++ Edge.targetsFrom fs source field := by
  simp [Edge.targetsFrom]

/-- The edges of a node lead to its converted children, in order. -/
theorem targetsFrom_linkEdges {n : ConvertedNode} (hkeys : (n.children.map (·.1)).Nodup)
    (field : String) :
    Edge.targetsFrom (linkEdges n) n.id field = (n.childrenOf field).map ConvertedNode.id := by
  rw [ConvertedNode.childrenOf_eq hkeys]
  simp [Edge.targetsFrom, linkEdges, List.filter_map, Function.comp_def]

theorem filter_flatMap_linkEdges {ms : List ConvertedNode} {source : InstanceId}
    (h : source ∉ ms.map ConvertedNode.id) :
    (ms.flatMap linkEdges).filter (·.source == source) = [] := by
  rw [List.filter_eq_nil_iff]
  intro e he
  obtain ⟨m, hm, he⟩ := List.mem_flatMap.1 he
  obtain ⟨l, -, rfl⟩ := List.mem_map.1 he
  simp only [beq_iff_eq]
  rintro rfl
  exact h (List.mem_map_of_mem hm)

/-- The edges of the graph from a node of the tree are those to its children. -/
theorem edgesFrom_ofConverted (h : root.Simple) {n : ConvertedNode} (hn : n ∈ root.subtrees) :
    (ofConverted root).edges.filter (·.source == n.id) = linkEdges n := by
  -- the edges of the nodes before and after `n` start at other ids
  have hids := h.ids
  obtain ⟨before, after, hsplit⟩ := List.append_of_mem hn
  rw [hsplit, List.map_append, List.map_cons, List.nodup_append] at hids
  have hbefore : n.id ∉ before.map ConvertedNode.id := fun hmem =>
    hids.2.2 _ hmem _ List.mem_cons_self rfl
  have hafter : n.id ∉ after.map ConvertedNode.id := (List.nodup_cons.1 hids.2.1).1
  have hself : (linkEdges n).filter (·.source == n.id) = linkEdges n := by
    simp [linkEdges, List.filter_map, Function.comp_def]
  rw [ofConverted, hsplit, List.flatMap_append, List.flatMap_cons, List.filter_append,
    List.filter_append, filter_flatMap_linkEdges hbefore, filter_flatMap_linkEdges hafter, hself,
    List.nil_append, List.append_nil]

/-- The edges of the graph from a field of a node lead to its converted children, in order. -/
theorem targetsFrom_ofConverted (h : root.Simple) {n : ConvertedNode} (hn : n ∈ root.subtrees)
    (field : String) :
    Edge.targetsFrom (ofConverted root).edges n.id field =
      (n.childrenOf field).map ConvertedNode.id := by
  have hsource : Edge.targetsFrom (ofConverted root).edges n.id field =
      Edge.targetsFrom ((ofConverted root).edges.filter (·.source == n.id)) n.id field := by
    simp only [Edge.targetsFrom, List.filter_filter]
    congr 2
    funext e
    cases e.source == n.id <;> simp
  rw [hsource, edgesFrom_ofConverted h hn, targetsFrom_linkEdges (h.keys n hn)]

theorem mem_targets_ofConverted {id : InstanceId} :
    (ofConverted root).edges.any (·.target == id) = true ↔
      ∃ p ∈ root.subtrees, ∃ n ∈ p.kids, n.id = id := by
  simp only [ofConverted, List.any_eq_true, List.mem_flatMap, linkEdges, List.mem_map,
    beq_iff_eq, ConvertedNode.kids_eq_map_links]
  constructor
  · rintro ⟨e, ⟨p, hp, l, hl, rfl⟩, rfl⟩
    exact ⟨p, hp, l.2, ⟨l, hl, rfl⟩, rfl⟩
  · rintro ⟨p, hp, n, ⟨l, hl, rfl⟩, rfl⟩
    exact ⟨_, ⟨p, hp, l, hl, rfl⟩, rfl⟩

/-- The root is the only node that no edge leads to. -/
theorem roots_ofConverted (h : root.Simple) : (ofConverted root).roots = [root.id] := by
  have hnodes : (ofConverted root).nodes.map (·.id) =
      root.id :: (root.kids.flatMap ConvertedNode.subtrees).map ConvertedNode.id := by
    rw [nodes_ofConverted h, ConvertedNode.instances, List.map_map, List.map_map,
      ConvertedNode.subtrees_eq]
    rfl
  have hroot : ((ofConverted root).edges.any (·.target == root.id)) = false := by
    rw [Bool.eq_false_iff]
    intro htarget
    obtain ⟨p, hp, n, hn, hid⟩ := mem_targets_ofConverted.1 htarget
    exact h.root_id_notMem
      (hid ▸ List.mem_map_of_mem (ConvertedNode.mem_below_of_mem_kids hp hn))
  have hbelow : ∀ id ∈ (root.kids.flatMap ConvertedNode.subtrees).map ConvertedNode.id,
      (ofConverted root).edges.any (·.target == id) = true := by
    intro id hid
    obtain ⟨n, hn, rfl⟩ := List.mem_map.1 hid
    have hmem : n ∈ root.subtrees := by
      rw [ConvertedNode.subtrees_eq]
      exact List.mem_cons_of_mem root hn
    rcases ConvertedNode.eq_or_exists_kid hmem with rfl | ⟨p, hp, hnp⟩
    · exact absurd (List.mem_map_of_mem hn) h.root_id_notMem
    · exact mem_targets_ofConverted.2 ⟨p, hp, n, hnp, rfl⟩
  rw [roots, hnodes, List.filter_cons_of_pos (by simp [hroot])]
  rw [List.filter_eq_nil_iff.2 fun id hid => by simp [hbelow id hid]]

end OfConverted

end Graph

end SyntaxGraph
