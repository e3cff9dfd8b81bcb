import SyntaxGraph.Proofs.Graph.Invariants

/-!
# Back from a graph to the tree

A graph is made by a walk that takes nodes off a stack. The walk meets the nodes of a tree each
before its children, so the graph keeps everything there is in the tree but for the fields without
children: following the edges from the root gives the tree back.
-/

namespace SyntaxGraph

namespace ConvertedNode

/-! ### The walk with a stack -/

/-- Puts the children of a node on a stack, from the last child of the last field on, so that the
first child of the first field comes to the top. -/
def pushKids (n : ConvertedNode) (stack : List ConvertedNode) : List ConvertedNode :=
  n.children.reverse.foldl
    (fun stack f => f.2.reverse.foldl (fun stack kid => kid :: stack) stack) stack

theorem pushKids_eq (n : ConvertedNode) (stack : List ConvertedNode) :
    n.pushKids stack = n.kids ++ stack := by
  rw [pushKids, kids, List.foldl_reverse]
  induction n.children with
  | nil => rfl
  | cons f fs ih =>
    rw [List.foldr_cons, ih, List.foldl_reverse, List.foldr_cons_eq_append, List.flatMap_cons,
      List.map_id_fun', id_eq, List.append_assoc]

/-- The nodes in the order in which they are taken off the stack. Each one puts its children there
in its place. -/
def visited : List ConvertedNode → List ConvertedNode
  | [] => []
  | n :: stack => n :: visited (n.pushKids stack)
termination_by stack => (stack.flatMap subtrees).length
decreasing_by
  rw [pushKids_eq, List.flatMap_append, List.flatMap_cons, subtrees_eq n, List.cons_append,
    List.length_cons]
  exact Nat.lt_succ_self _

/-- The walk goes through the trees on the stack one after the other. -/
theorem visited_eq (stack : List ConvertedNode) : visited stack = stack.flatMap subtrees := by
  fun_induction visited stack with
  | case1 => rfl
  | case2 n stack ih =>
    rw [ih, pushKids_eq, List.flatMap_append, List.flatMap_cons, subtrees_eq n, List.cons_append]

theorem visited_root (root : ConvertedNode) : visited [root] = root.subtrees := by
  rw [visited_eq, List.flatMap_singleton]

/-! ### Fields without children -/

mutual

/-- The tree without the fields that hold no child. -/
def pruned : ConvertedNode → ConvertedNode
  | .mk s fs => .mk s (prunedFields fs)

/-- The fields that hold a child, with pruned children. -/
def prunedFields : List (String × List ConvertedNode) → List (String × List ConvertedNode)
  | [] => []
  | (name, ns) :: fs =>
    if ns.isEmpty then prunedFields fs else (name, prunedNodes ns) :: prunedFields fs

/-- The trees, each pruned. -/
def prunedNodes : List ConvertedNode → List ConvertedNode
  | [] => []
  | n :: ns => n.pruned :: prunedNodes ns

end

theorem prunedNodes_eq_map (ns : List ConvertedNode) : prunedNodes ns = ns.map pruned := by
  induction ns with
  | nil => rw [prunedNodes, List.map_nil]
  | cons n ns ih => rw [prunedNodes, ih, List.map_cons]

/-- The fields of a node that hold a child. -/
def heldFields (n : ConvertedNode) : List (String × List ConvertedNode) :=
  n.children.filter (!·.2.isEmpty)

theorem pruned_eq (n : ConvertedNode) :
    n.pruned = .mk n.state (n.heldFields.map fun f => (f.1, f.2.map pruned)) := by
  obtain ⟨s, fs⟩ := n
  rw [pruned, heldFields, state, children]
  congr 1
  induction fs with
  | nil => rw [prunedFields, List.filter_nil, List.map_nil]
  | cons f fs ih =>
    obtain ⟨name, ns⟩ := f
    rw [prunedFields, ih, prunedNodes_eq_map]
    cases ns with
    | nil => simp
    | cons n ns => simp

theorem distinct_replicate_append {name : String} {names : List String} (h : name ∉ names)
    (k : Nat) :
    Units.distinct (List.replicate (k + 1) name ++ names) = name :: Units.distinct names := by
  have hfilter : (Units.distinct names).filter (· != name) = Units.distinct names := by
    refine List.filter_eq_self.2 fun m hm => ?_
    rw [Units.mem_distinct] at hm
    rw [bne_iff_ne]
    rintro rfl
    exact h hm
  induction k with
  | zero => rw [List.replicate_one, List.singleton_append, Units.distinct, hfilter]
  | succ k ih =>
    rw [List.replicate_succ, List.cons_append, Units.distinct, ih,
      List.filter_cons_of_neg (by simp), hfilter]

/-- The names on the links of a node are those of the fields that hold a child. -/
theorem distinct_links {n : ConvertedNode} (h : (n.children.map (·.1)).Nodup) :
    Units.distinct (n.links.map (·.1)) = n.heldFields.map (·.1) := by
  have hnames : n.links.map (·.1) = n.children.flatMap fun f => List.replicate f.2.length f.1 := by
    simp [links, List.map_flatMap, Function.comp_def, List.map_const']
  rw [hnames, heldFields]
  generalize n.children = fs at h ⊢
  induction fs with
  | nil => rfl
  | cons f fs ih =>
    obtain ⟨name, ns⟩ := f
    obtain ⟨hname, hfs⟩ := List.nodup_cons.1 h
    have hnew : name ∉ fs.flatMap fun f => List.replicate f.2.length f.1 := by
      intro hmem
      obtain ⟨f, hf, hrep⟩ := List.mem_flatMap.1 hmem
      exact hname (List.mem_map.2 ⟨f, hf, (List.eq_of_mem_replicate hrep).symm⟩)
    rw [List.flatMap_cons]
    cases ns with
    | nil => simpa using ih hfs
    | cons n ns =>
      rw [List.length_cons, distinct_replicate_append hnew, ih hfs]
      rfl

theorem count_lt_of_mem_kids {n kid : ConvertedNode} (h : kid ∈ n.kids) : kid.count < n.count := by
  have hsub : kid.subtrees.Sublist (n.kids.flatMap subtrees) :=
    List.sublist_flatten_of_mem (List.mem_map_of_mem h)
  rw [count, count, subtrees_eq n, List.length_cons]
  exact Nat.lt_succ_of_le hsub.length_le

/-- Nothing is pruned from a tree in which every field holds a child. -/
theorem pruned_eq_self {n : ConvertedNode}
    (h : ∀ m ∈ n.subtrees, ∀ f ∈ m.children, f.2 ≠ []) : n.pruned = n := by
  have hheld : n.heldFields = n.children := by
    refine List.filter_eq_self.2 fun f hf => ?_
    simpa using h n n.self_mem_subtrees f hf
  have hkids : ∀ kid ∈ n.kids, kid.pruned = kid := fun kid hkid =>
    have := count_lt_of_mem_kids hkid
    pruned_eq_self fun m hm => h m ((sublist_subtrees (mem_subtrees_of_mem_kids hkid)).subset hm)
  have hfields : ∀ f ∈ n.children, (f.1, f.2.map pruned) = f := by
    rintro ⟨name, ns⟩ hf
    have hns : ns.map pruned = ns.map fun kid => kid :=
      List.map_congr_left fun kid hkid => hkids kid (List.mem_flatMap.2 ⟨_, hf, hkid⟩)
    rw [hns, List.map_id']
  rw [pruned_eq, hheld, List.map_congr_left hfields, List.map_id']
  cases n
  rfl
termination_by n.count

end ConvertedNode

namespace Graph

/-- The graph with a node of a tree and its edges added. -/
def visit (g : Graph) (n : ConvertedNode) : Graph :=
  { g.insert n.state with edges := g.edges ++ linkEdges n }

/-- Visiting nodes one by one puts in their instances and adds their edges, in order. -/
theorem foldl_visit (ns : List ConvertedNode) (g : Graph) :
    ns.foldl visit g =
      { nodes := ((ns.map ConvertedNode.state).foldl insert g).nodes
        edges := g.edges ++ ns.flatMap linkEdges } := by
  -- the nodes that are put in do not depend on the edges
  have hnodes : ∀ (is : List Instance) (g : Graph) (es : List Edge),
      (is.foldl insert { g with edges := es }).nodes = (is.foldl insert g).nodes := by
    intro is
    induction is with
    | nil => exact fun _ _ => rfl
    | cons i is ih => exact fun g es => ih (g.insert i) es
  induction ns generalizing g with
  | nil => simp
  | cons n ns ih =>
    rw [List.foldl_cons, ih, List.map_cons, List.foldl_cons, List.flatMap_cons, ← List.append_assoc,
      visit, hnodes]

/-- The graph of a converted tree is what the walk with a stack makes of the empty graph. -/
theorem foldl_visit_visited (root : ConvertedNode) :
    (ConvertedNode.visited [root]).foldl visit {} = ofConverted root := by
  rw [ConvertedNode.visited_root, foldl_visit, ofConverted, ConvertedNode.instances,
    List.nil_append]

/-! ### Unfolding -/

/-- The fields that edges lead from, in the order of their first edges. -/
def fieldsFrom (g : Graph) (source : InstanceId) : List String :=
  Units.distinct ((g.edges.filter (·.source == source)).map (·.field))

/-- The tree that unfolds from a node along the edges, or `none` when it goes deeper than `depth` or
comes to a node without an instance. -/
def treeFrom? (g : Graph) : Nat → InstanceId → Option ConvertedNode
  | 0, _ => none
  | depth + 1, id => do
    let state ← g.state? id
    let fields ← (g.fieldsFrom id).mapM fun field => do
      return (field, ← (g.children id field).mapM (g.treeFrom? depth))
    return .mk state fields

theorem mapM_of_forall_some {α β : Type} {f : α → Option β} {g : α → β} {l : List α}
    (h : ∀ a ∈ l, f a = some (g a)) : l.mapM f = some (l.map g) := by
  induction l with
  | nil => rfl
  | cons a l ih =>
    rw [List.mapM_cons, h a List.mem_cons_self, ih fun b hb => h b (List.mem_cons_of_mem a hb)]
    rfl

section OfConverted

variable {root n : ConvertedNode}

theorem children_ofConverted (h : root.Simple) (hn : n ∈ root.subtrees) (field : String) :
    (ofConverted root).children n.id field = (n.childrenOf field).map ConvertedNode.id :=
  targetsFrom_ofConverted h hn field

/-- Edges lead from the fields that hold a child. -/
theorem fieldsFrom_ofConverted (h : root.Simple) (hn : n ∈ root.subtrees) :
    (ofConverted root).fieldsFrom n.id = n.heldFields.map (·.1) := by
  have hfields : (linkEdges n).map (·.field) = n.links.map (·.1) := by
    simp [linkEdges, Function.comp_def]
  rw [fieldsFrom, edgesFrom_ofConverted h hn, hfields,
    ConvertedNode.distinct_links (h.keys n hn)]

/-- The graph unfolds from a node of the tree into what stands below the node. -/
theorem treeFrom?_ofConverted (h : root.Simple) {depth : Nat} (hn : n ∈ root.subtrees)
    (hdepth : n.count ≤ depth) : (ofConverted root).treeFrom? depth n.id = some n.pruned := by
  -- on the depth, with a bound on the nodes of the tree: a child has fewer of them than its parent
  induction depth generalizing n with
  | zero =>
    rw [ConvertedNode.count, ConvertedNode.subtrees_eq] at hdepth
    exact absurd hdepth (Nat.not_succ_le_zero _)
  | succ depth ih =>
    have hkids : ∀ kid ∈ n.kids,
        (ofConverted root).treeFrom? depth kid.id = some kid.pruned := fun kid hkid =>
      ih ((ConvertedNode.sublist_subtrees hn).subset (ConvertedNode.mem_subtrees_of_mem_kids hkid))
        (Nat.le_of_lt_succ (Nat.lt_of_lt_of_le (ConvertedNode.count_lt_of_mem_kids hkid) hdepth))
    have hchildren : ∀ f ∈ n.heldFields,
        ((ofConverted root).children n.id f.1).mapM ((ofConverted root).treeFrom? depth) =
          some (f.2.map ConvertedNode.pruned) := by
      intro f hf
      have hmem : f ∈ n.children := List.mem_of_mem_filter hf
      have hof : n.childrenOf f.1 = f.2 := by
        rw [ConvertedNode.childrenOf, Table.lookup_of_mem (h.keys n hn) hmem, Option.getD_some]
      rw [children_ofConverted h hn, hof, List.mapM_map]
      exact mapM_of_forall_some fun kid hkid => hkids kid (List.mem_flatMap.2 ⟨f, hmem, hkid⟩)
    have hfields : (n.heldFields.map (·.1)).mapM (fun field => do
        return (field, ← ((ofConverted root).children n.id field).mapM
          ((ofConverted root).treeFrom? depth))) =
        some (n.heldFields.map fun f => (f.1, f.2.map ConvertedNode.pruned)) := by
      rw [List.mapM_map]
      refine mapM_of_forall_some fun f hf => ?_
      rw [Function.comp_apply, hchildren f hf]
      rfl
    rw [treeFrom?, state?_ofConverted h hn, fieldsFrom_ofConverted h hn, hfields,
      ConvertedNode.pruned_eq]
    rfl

theorem size_ofConverted (h : root.Simple) : (ofConverted root).size = root.count := by
  rw [size, nodes_ofConverted h, List.length_map, ConvertedNode.length_instances]

/-- An edge is one from a node of the tree to a child of it. -/
theorem mem_edges_ofConverted_iff (h : root.Simple) (e : Edge) :
    e ∈ (ofConverted root).edges ↔
      ∃ p ∈ root.subtrees, ∃ kid ∈ p.childrenOf e.field, e.source = p.id ∧ e.target = kid.id := by
  constructor
  · intro he
    obtain ⟨p, hp, l, hl, rfl⟩ := mem_edges_ofConverted he
    refine ⟨p, hp, l.2, ?_, rfl, rfl⟩
    rw [ConvertedNode.childrenOf_eq (h.keys p hp)]
    exact List.mem_map_of_mem (List.mem_filter.2 ⟨hl, by simp⟩)
  · rintro ⟨p, hp, kid, hkid, hsource, htarget⟩
    rw [ConvertedNode.childrenOf_eq (h.keys p hp)] at hkid
    obtain ⟨l, hl, rfl⟩ := List.mem_map.1 hkid
    obtain ⟨hl, hfield⟩ := List.mem_filter.1 hl
    have he : e = ⟨p.id, l.1, l.2.id⟩ := by
      rw [beq_iff_eq] at hfield
      rw [hfield, ← hsource, ← htarget]
    exact List.mem_flatMap.2 ⟨p, hp, List.mem_map.2 ⟨l, hl, he.symm⟩⟩

/-- **The graph of a converted tree is the tree.** The walk with a stack meets the instances in
order and makes the graph. Its nodes are the instances of the tree; no two edges lead to the same
node, and an edge is there for each child of a node, and no other; the root is the only node without
an edge to it, and the edges from a field lead to its children in order. So the graph unfolds from
the root into the tree again, less the fields that hold no child. -/
theorem ofConverted_faithful (h : root.Simple) :
    (ConvertedNode.visited [root]).map ConvertedNode.state = root.instances ∧
      (ConvertedNode.visited [root]).foldl visit {} = ofConverted root ∧
      (ofConverted root).nodes = root.instances.map (fun i => ⟨i.id, some i⟩) ∧
      (ofConverted root).SingleInput ∧
      (∀ e, e ∈ (ofConverted root).edges ↔
        ∃ p ∈ root.subtrees, ∃ kid ∈ p.childrenOf e.field, e.source = p.id ∧ e.target = kid.id) ∧
      (ofConverted root).roots = [root.id] ∧
      (∀ n ∈ root.subtrees, ∀ field,
        (ofConverted root).children n.id field = (n.childrenOf field).map ConvertedNode.id) ∧
      (∀ depth, (ofConverted root).size ≤ depth →
        (ofConverted root).treeFrom? depth root.id = some root.pruned) ∧
      ((∀ n ∈ root.subtrees, ∀ f ∈ n.children, f.2 ≠ []) → root.pruned = root) := by
  refine ⟨?_, foldl_visit_visited root, nodes_ofConverted h, singleInput_ofConverted h,
    mem_edges_ofConverted_iff h, roots_ofConverted h, fun n hn => children_ofConverted h hn, ?_,
    ConvertedNode.pruned_eq_self⟩
  · rw [ConvertedNode.visited_root]
    rfl
  · intro depth hdepth
    rw [size_ofConverted h] at hdepth
    exact treeFrom?_ofConverted h root.self_mem_subtrees hdepth

end OfConverted

/-- An instance without units. -/
def twig (value : UInt64) : Instance :=
  ⟨⟨value⟩, { name := "Twig", fields := [] }, []⟩

/-- A tree in which the same field names come at two levels, with two fields that hold no child. -/
def hedge : ConvertedNode :=
  .mk (twig 4) [
    ("Left", [.mk (twig 9) [("Left", [.mk (twig 2) []]), ("Right", [])]]),
    ("Gap", []),
    ("Right", [.mk (twig 7) [], .mk (twig 1) []])]

/-- The two fields without children are gone from what unfolds. -/
theorem ofConverted_hedge :
    hedge.Simple ∧
      (ofConverted hedge).nodes.map (·.id) = [⟨4⟩, ⟨9⟩, ⟨2⟩, ⟨7⟩, ⟨1⟩] ∧
      (ofConverted hedge).roots = [⟨4⟩] ∧
      (ofConverted hedge).children ⟨4⟩ "Right" = [⟨7⟩, ⟨1⟩] ∧
      (ofConverted hedge).treeFrom? 5 ⟨4⟩ = some (.mk (twig 4) [
        ("Left", [.mk (twig 9) [("Left", [.mk (twig 2) []])]]),
        ("Right", [.mk (twig 7) [], .mk (twig 1) []])]) := by
  have hsimple : hedge.Simple := ⟨by decide, by decide⟩
  obtain ⟨-, -, hnodes, -, -, hroots, hchildren, hunfold, -⟩ := ofConverted_faithful hsimple
  refine ⟨hsimple, ?_, hroots, hchildren hedge hedge.self_mem_subtrees "Right", ?_⟩
  · rw [hnodes]
    rfl
  · exact hunfold 5 (by decide)

end Graph

end SyntaxGraph
