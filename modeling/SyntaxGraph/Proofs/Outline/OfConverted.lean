import SyntaxGraph.Proofs.Conversion.Shape
import SyntaxGraph.Proofs.Graph.OfConverted
import SyntaxGraph.Proofs.Outline.Drawing

/-!
# The outline of a converted tree

The outline of the graph of a converted tree is the outline of the tree. One is drawn from the
children that were converted, field by field; the other from the edges of the node fields that the
instances declare. Both are images of the same source, whose nodes are the nodes of the tree:
conversion goes through the fields in the order in which they are declared, and takes every name
once.

Neither outline shows a node twice. The nodes that are still to come in the outline of a tree are
those at and below the lines on the stack, and no id is among them twice or was shown before.
-/

namespace SyntaxGraph

namespace ConvertedNode

theorem mem_subtrees_of_mem_links {root n : ConvertedNode} {l : String × ConvertedNode}
    (hn : n ∈ root.subtrees) (hl : l ∈ n.links) : l.2 ∈ root.subtrees := by
  refine (sublist_subtrees hn).subset (mem_subtrees_of_mem_kids ?_)
  rw [kids_eq_map_links]
  exact List.mem_map_of_mem hl

/-- The tree is simple, and the children of every node are those in the node fields of its instance,
in the order of their names, none of which is empty. -/
structure Arranged (root : ConvertedNode) : Prop extends root.Simple where
  links : ∀ n ∈ root.subtrees, n.links = (Units.nodeFieldNames n.state.fields).flatMap fun name =>
    (n.childrenOf name).map (name, ·)
  named : ∀ n ∈ root.subtrees, ∀ name ∈ Units.nodeFieldNames n.state.fields, name ≠ ""

end ConvertedNode

namespace Conversion

open Schema (Catalog)

/-- Every node field of a template that stands for a tag has a name. -/
def NamesNodeFields (c : Catalog) : Prop :=
  ∀ tag t, c.templateForTag? tag = some t → ∀ f ∈ Units.nodeFields t.fields, f.name ≠ ""

theorem arranged_of_convertNode {c : Catalog} (hc : NamesNodeFields c) {n : Tree.Node}
    {counter : Counter} {node : ConvertedNode} (hids : coverage c n ≤ UInt64.size)
    (h : (convertNode c n counter).1 = some node) : node.Arranged := by
  have htemplate : ∀ m ∈ node.subtrees, ∃ k t counter', c.templateForTag? k.tag = some t ∧
      (convertNode c k counter').1 = some m ∧
      Units.nodeFieldNames m.state.fields = Units.nodeFieldNames t.fields := by
    intro m hm
    obtain ⟨k, counter', hk⟩ := converts_of_mem_subtrees ⟨counter, h⟩ m hm
    cases ht : c.templateForTag? k.tag with
    | none => simp [convertNode_of_none ht] at hk
    | some t =>
      have hfields : Units.nodeFields m.state.fields = Units.nodeFields t.fields :=
        nodeFields_of_convertNode ht hk
      exact ⟨k, t, counter', ht, hk, by rw [Units.nodeFieldNames, Units.nodeFieldNames, hfields]⟩
  refine ⟨simple_of_convertNode hids h, ?_, ?_⟩
  · intro m hm
    obtain ⟨k, t, counter', ht, hk, hnames⟩ := htemplate m hm
    rw [hnames, links_of_convertNode ht hk]
  · intro m hm name hname
    obtain ⟨k, t, counter', ht, hk, hnames⟩ := htemplate m hm
    rw [hnames, Units.nodeFieldNames, Units.mem_distinct] at hname
    obtain ⟨f, hf, rfl⟩ := List.mem_map.1 hname
    exact hc k.tag t ht f hf

end Conversion

namespace Outline

/-! ### One source for both outlines -/

section Sources

variable {showIds : Bool} {parameters : Parameters} {root n : ConvertedNode}

/-- The nodes of a converted tree as a source of outlines. -/
def nodeSource (showIds : Bool) (root : ConvertedNode) : Source {n // n ∈ root.subtrees} where
  id n := n.1.id
  label n := instanceLabel showIds n.1.state
  children n := n.1.links.attach.map fun l =>
    (l.1.1, ⟨l.1.2, ConvertedNode.mem_subtrees_of_mem_links n.2 l.2⟩)

theorem nodeSource_tree (showIds : Bool) (root : ConvertedNode) :
    (nodeSource showIds root).Map (treeSource showIds) id Subtype.val where
  id _ := rfl
  label _ := rfl
  children n := by
    rw [nodeSource, List.map_map]
    exact (List.attach_map_subtype_val n.1.links).symm

/-- The edges of the graph list the converted children. -/
theorem graphChildren_ofConverted (h : root.Arranged) (hn : n ∈ root.subtrees) :
    graphChildren (.ofGraph (.ofConverted root)) (.build (Graph.ofConverted root).edges) n.id =
      n.links.map fun l => (l.1, l.2.id) := by
  rw [graphChildren, Graph.state?_ofGraph_ofConverted h.toSimple hn, h.links n hn, List.map_flatMap]
  refine List.flatMap_congr fun name hname => ?_
  have hname' : ¬name.isEmpty = true := by simpa using h.named n hn name hname
  rw [EdgeIndex.children_build, if_neg hname', Graph.targetsFrom_ofConverted h.toSimple hn,
    List.map_map, List.map_map]
  rfl

theorem nodeSource_graph (h : root.Arranged) (parameters : Parameters) :
    (nodeSource (showsIds parameters) root).Map (sourceOf parameters (.ofConverted root)) id
      fun n => n.1.id where
  id _ := rfl
  label n := by
    simp only [sourceOf, graphSource, Graph.state?_ofGraph_ofConverted h.toSimple n.2]
    rfl
  children n := by
    refine (graphChildren_ofConverted h n.2).trans ?_
    rw [nodeSource, List.map_map]
    exact (List.attach_map_val (f := fun l : String × ConvertedNode => (l.1, l.2.id))).symm

end Sources

/-! ### No node twice -/

section Once

variable {showIds : Bool} {d e : Drawing ConvertedNode} {es : List (Entry ConvertedNode)}

/-- **Every node at and below the lines has one entry.** No id of these nodes comes twice or was
shown before, and each line leaves it so. -/
theorem Draws.nodes_eq (h : Draws (treeSource showIds) d es e) (hend : e.stack = [])
    (hids : (d.shown ++ (d.stack.flatMap fun l => l.node.subtrees).map ConvertedNode.id).Nodup) :
    (es.map (·.line.node) = d.stack.flatMap fun l => l.node.subtrees) ∧
      ∀ x ∈ es, x.again = false := by
  induction h using Draws.linewise with
  | done d => simp [hend]
  | @again out shown l rest es e hid _ ih =>
    have hpending : l.node.id ∈
        ((l :: rest).flatMap fun l => l.node.subtrees).map ConvertedNode.id :=
      List.mem_map_of_mem (List.mem_flatMap.2 ⟨l, List.mem_cons_self, l.node.self_mem_subtrees⟩)
    exact absurd rfl ((List.nodup_append.1 hids).2.2 _ hid _ hpending)
  | @new out shown l rest es e _ _ ih =>
    have hkids : (childLines l.below ((treeSource showIds).children l.node) ++ rest).flatMap
          (fun l => l.node.subtrees) =
        l.node.kids.flatMap ConvertedNode.subtrees ++ rest.flatMap fun l => l.node.subtrees := by
      have hnodes := nodes_childLines l.below l.node.links
      rw [← ConvertedNode.kids_eq_map_links] at hnodes
      rw [← hnodes, List.flatMap_append, List.flatMap_map]
      rfl
    have hpending : ((l :: rest).flatMap fun l => l.node.subtrees) =
        l.node :: (childLines l.below ((treeSource showIds).children l.node) ++ rest).flatMap
          fun l => l.node.subtrees := by
      rw [hkids, List.flatMap_cons, ConvertedNode.subtrees_eq, List.cons_append]
    simp only [hpending] at hids ⊢
    obtain ⟨hnodes, hnew⟩ := ih hend (List.nodup_middle.1 hids)
    exact ⟨congrArg (l.node :: ·) hnodes, List.forall_mem_cons.2 ⟨rfl, hnew⟩⟩

/-- The entries of a tree without repeated ids are its nodes, none of them marked. -/
theorem Writes.nodes_eq {root : ConvertedNode} (hroot : root.Simple)
    (h : Writes (treeSource showIds) [root] es) :
    es.map (·.line.node) = root.subtrees ∧ ∀ x ∈ es, x.again = false := by
  obtain ⟨e, hes, hend⟩ := h
  have hstack : ((start [root]).stack.flatMap fun l => l.node.subtrees) = root.subtrees :=
    List.append_nil _
  rw [← hstack]
  refine hes.nodes_eq hend ?_
  rw [hstack]
  exact hroot.ids

end Once

/-! ### The two outlines -/

/-- The entries of the graph are those of the tree, with the ids of the nodes. -/
theorem writes_ofConverted {root : ConvertedNode} (h : root.Arranged) {parameters : Parameters}
    {es : List (Entry ConvertedNode)} (hes : Writes (treeSource (showsIds parameters)) [root] es) :
    Writes (sourceOf parameters (.ofConverted root)) (Graph.ofConverted root).roots
        (es.map (Entry.map ConvertedNode.id)) ∧
      ofGraph parameters (.ofConverted root) = ofConverted parameters root := by
  have htree := nodeSource_tree (showsIds parameters) root
  have hgraph := nodeSource_graph h parameters
  have hroots : [root] =
      [(⟨root, root.self_mem_subtrees⟩ : {n // n ∈ root.subtrees})].map Subtype.val := rfl
  rw [hroots] at hes
  obtain ⟨ns, hns, rfl⟩ := htree.exists_writes Function.injective_id hes
  have hids : Writes (sourceOf parameters (.ofConverted root)) (Graph.ofConverted root).roots
      (ns.map (Entry.map fun n => n.1.id)) := by
    rw [Graph.roots_ofConverted h.toSimple]
    exact hgraph.writes Function.injective_id hns
  refine ⟨by rwa [List.map_map], ?_⟩
  rw [ofGraph_eq hids, ofConverted_eq hes, hgraph.join_text, htree.join_text]

open Conversion in
open Schema (Catalog) in
/-- **The two outlines agree.** If the node fields of the catalog have names and there are enough
ids, the outline of the graph of a converted tree is that of the tree, whatever the parameters. Both
have one entry for each node of the tree, in order, and no entry is that of a node which was shown
before. -/
theorem ofGraph_ofConverted {c : Catalog} (hc : NamesNodeFields c) {n : Tree.Node}
    {counter : Counter} (hids : coverage c n ≤ UInt64.size) {root : ConvertedNode}
    (h : (convert c n counter).1.root = some root) (parameters : Parameters) :
    ofGraph parameters (.ofConverted root) = ofConverted parameters root ∧
      ∃ es, Writes (treeSource (showsIds parameters)) [root] es ∧
        Writes (sourceOf parameters (.ofConverted root)) (Graph.ofConverted root).roots
          (es.map (Entry.map ConvertedNode.id)) ∧
        es.map (·.line.node) = root.subtrees ∧ ∀ x ∈ es, x.again = false := by
  rw [convert_eq] at h
  have harranged := arranged_of_convertNode hc hids h
  obtain ⟨es, hes⟩ := exists_writes_ofConverted parameters root
  obtain ⟨hgraph, htext⟩ := writes_ofConverted harranged hes
  exact ⟨htext, es, hes, hgraph, hes.nodes_eq harranged.toSimple⟩

/-- The vine that a vine grows on into, whether or not there is a knot. -/
def bud : FieldSpec where
  name := "Bud"
  declaredType := "VineSyntax"

/-- A vine has a bud, with a knot before it or without, and then shoots. -/
def vine : Template where
  name := "Vine"
  kinds := ["vine"]
  fields :=
    [.choice none false
      [.ofSpec bud,
        .sequence [.ofSpec { name := "Knot", declaredType := "SyntaxToken" }, .ofSpec bud]] 0,
    .ofSpec { name := "Shoots", declaredType := "SyntaxList<VineSyntax>" }]

/-- A vine with two shoots and a bud, which come in another order than in the template. -/
def vineTree : Tree.Node :=
  .mk "vine" [("Shoots", .nodes [.mk "vine" [], .mk "vine" []]), ("Bud", .node (.mk "vine" []))]

open Conversion in
open Schema (Catalog) in
theorem ofGraph_vineTree :
    ∃ root, (convert (.ofDocument { nodes := [vine] }) vineTree ⟨7⟩).1.root = some root ∧
      ofGraph [("show-ids", "TRUE")] (.ofConverted root) =
        ofConverted [("show-ids", "TRUE")] root ∧
      ∃ es, Writes (treeSource true) [root] es ∧ es.length = 4 ∧ ∀ x ∈ es, x.again = false := by
  have hc : NamesNodeFields (.ofDocument { nodes := [vine] }) := by
    intro tag t ht f hf
    obtain rfl := List.mem_singleton.1 (Catalog.mem_nodes_of_templateForTag? ht)
    revert f
    decide
  have hvine : (Catalog.ofDocument { nodes := [vine] }).templateForTag? "vine" = some vine := by
    rw [Catalog.templateForTag?_ofDocument]
    rfl
  have hcoverage : coverage (.ofDocument { nodes := [vine] }) vineTree = 4 := by
    have hnames : Units.nodeFieldNames vine.fields = ["Bud", "Shoots"] := by decide
    have hleaf : visits (.ofDocument { nodes := [vine] }) (.mk "vine" []) = [.mk "vine" []] := by
      rw [visits_of_some hvine, hnames]
      rfl
    have hleafCovered : hasTemplate (.ofDocument { nodes := [vine] }) (.mk "vine" []) = true :=
      congrArg Option.isSome hvine
    have hcovered : hasTemplate (.ofDocument { nodes := [vine] }) vineTree = true :=
      congrArg Option.isSome hvine
    have hbud : vineTree.childrenOf "Bud" = [.mk "vine" []] := rfl
    have hshoots : vineTree.childrenOf "Shoots" = [.mk "vine" [], .mk "vine" []] := rfl
    have hvisits : visits (.ofDocument { nodes := [vine] }) vineTree =
        [vineTree, .mk "vine" [], .mk "vine" [], .mk "vine" []] := by
      rw [visits_of_some hvine, hnames]
      simp [visitsBelow, hbud, hshoots, hleaf]
    rw [coverage, hvisits]
    simp [hcovered, hleafCovered]
  obtain ⟨root, hroot⟩ : ∃ root,
      (convert (.ofDocument { nodes := [vine] }) vineTree ⟨7⟩).1.root = some root := by
    rw [convert_eq, convertNode_of_some hvine]
    exact ⟨_, rfl⟩
  have hids : coverage (.ofDocument { nodes := [vine] }) vineTree ≤ UInt64.size := by
    rw [hcoverage]
    decide
  have hshows : showsIds [("show-ids", "TRUE")] = true := by decide
  obtain ⟨htext, es, hes, -, hnodes, hnew⟩ :=
    ofGraph_ofConverted hc hids hroot [("show-ids", "TRUE")]
  refine ⟨root, hroot, htext, es, hshows ▸ hes, ?_, hnew⟩
  rw [convert_eq] at hroot
  have hlength := congrArg List.length hnodes
  rw [List.length_map] at hlength
  rw [hlength, ← hcoverage, ← count_of_convertNode hroot]
  rfl

end Outline

end SyntaxGraph
