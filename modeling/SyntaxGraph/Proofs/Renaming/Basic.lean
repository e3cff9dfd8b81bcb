import Mathlib.Data.List.Basic
import Mathlib.Data.Set.Function
import Mathlib.Logic.Equiv.Fintype
import SyntaxGraph.Proofs.Graph.OfConverted

/-!
# Renaming ids

A renaming gives every instance a new id, in the nodes of a graph, in their instances and along the
edges, and keeps every order. Under a renaming that does not identify ids, everything that is looked up
in a graph is renamed along with it: the instances, the children of a field and the roots. The graph of
a renamed tree is the renamed graph of the tree.

Only the ids of a graph matter. A renaming that is injective on some ids agrees on them with one that
is injective on all, since there are finitely many ids (`exists_injective_eq_on`).
-/

namespace SyntaxGraph

/-! ### Instances, edges and graphs -/

/-- The instance under its new id. -/
def Instance.rename (ρ : InstanceId → InstanceId) (i : Instance) : Instance :=
  { i with id := ρ i.id }

/-- The node under its new id, and its instance too. -/
def GraphNode.rename (ρ : InstanceId → InstanceId) (n : GraphNode) : GraphNode :=
  ⟨ρ n.id, n.state.map (·.rename ρ)⟩

/-- The edge between the new ids. -/
def Edge.rename (ρ : InstanceId → InstanceId) (e : Edge) : Edge :=
  { e with source := ρ e.source, target := ρ e.target }

/-- The graph under the new ids, in the old order. -/
def Graph.rename (ρ : InstanceId → InstanceId) (g : Graph) : Graph where
  nodes := g.nodes.map (·.rename ρ)
  edges := g.edges.map (·.rename ρ)

/-- The instances of a store under their new ids. -/
def Store.rename (ρ : InstanceId → InstanceId) (store : Store) : Store :=
  store.map fun e => (ρ e.1, e.2.rename ρ)

/-- The ids in a graph: those of the nodes, of their instances and at the ends of the edges. -/
def Graph.ids (g : Graph) : List InstanceId :=
  g.nodes.flatMap (fun n => n.id :: (n.state.map (·.id)).toList) ++
    g.edges.flatMap fun e => [e.source, e.target]

@[simp] theorem Instance.fields_rename (ρ : InstanceId → InstanceId) (i : Instance) :
    (i.rename ρ).fields = i.fields :=
  rfl

theorem Store.ofGraph_rename (ρ : InstanceId → InstanceId) (g : Graph) :
    ofGraph (g.rename ρ) = (ofGraph g).rename ρ := by
  simp only [ofGraph, Graph.rename, Store.rename, List.filterMap_map, List.map_filterMap]
  refine List.filterMap_congr fun n _ => ?_
  cases hn : n.state <;> simp [GraphNode.rename, hn]

section Lookup

variable {ρ : InstanceId → InstanceId} (hρ : ρ.Injective)

include hρ

theorem Store.state?_rename (store : Store) (id : InstanceId) :
    (store.rename ρ).state? (ρ id) = (store.state? id).map (·.rename ρ) := by
  induction store with
  | nil => rfl
  | cons e store ih =>
    obtain ⟨k, i⟩ := e
    simp only [state?, Store.rename, List.map_cons, List.lookup_cons, hρ.beq_eq] at ih ⊢
    cases id == k with
    | true => rfl
    | false => exact ih

theorem Edge.targetsFrom_rename (edges : List Edge) (source : InstanceId) (field : String) :
    targetsFrom (edges.map (·.rename ρ)) (ρ source) field = (targetsFrom edges source field).map ρ := by
  simp only [targetsFrom, List.filter_map, List.map_map, Function.comp_def, Edge.rename, hρ.beq_eq]

theorem EdgeIndex.children_rename (edges : List Edge) (source : InstanceId) (field : String) :
    (build (edges.map (·.rename ρ))).children (ρ source) field =
      ((build edges).children source field).map ρ := by
  rw [children_build, children_build, Edge.targetsFrom_rename hρ]
  split <;> rfl

theorem Graph.roots_rename (g : Graph) : (g.rename ρ).roots = g.roots.map ρ := by
  simp only [roots, Graph.rename, List.map_map, List.filter_map, List.any_map, Function.comp_def,
    GraphNode.rename, Edge.rename, hρ.beq_eq]

end Lookup

/-! ### Converted trees -/

namespace ConvertedNode

mutual

/-- The tree under the new ids. -/
def rename (ρ : InstanceId → InstanceId) : ConvertedNode → ConvertedNode
  | .mk s cs => .mk (s.rename ρ) (renameFields ρ cs)

/-- The fields with the trees in them under the new ids. -/
def renameFields (ρ : InstanceId → InstanceId) :
    List (String × List ConvertedNode) → List (String × List ConvertedNode)
  | [] => []
  | (name, ns) :: fs => (name, renameNodes ρ ns) :: renameFields ρ fs

/-- The trees under the new ids. -/
def renameNodes (ρ : InstanceId → InstanceId) : List ConvertedNode → List ConvertedNode
  | [] => []
  | n :: ns => n.rename ρ :: renameNodes ρ ns

end

section

variable (ρ : InstanceId → InstanceId)

theorem renameNodes_eq_map (ns : List ConvertedNode) : renameNodes ρ ns = ns.map (rename ρ) := by
  induction ns with
  | nil => rw [renameNodes]; rfl
  | cons n ns ih => rw [renameNodes, ih]; rfl

theorem renameFields_eq_map (fs : List (String × List ConvertedNode)) :
    renameFields ρ fs = fs.map fun f => (f.1, f.2.map (rename ρ)) := by
  induction fs with
  | nil => rw [renameFields]; rfl
  | cons f fs ih =>
    obtain ⟨name, ns⟩ := f
    rw [renameFields, ih, renameNodes_eq_map]
    rfl

theorem rename_mk (s : Instance) (cs : List (String × List ConvertedNode)) :
    rename ρ (.mk s cs) = .mk (s.rename ρ) (cs.map fun f => (f.1, f.2.map (rename ρ))) := by
  rw [rename, renameFields_eq_map]

@[simp] theorem state_rename (n : ConvertedNode) : (n.rename ρ).state = n.state.rename ρ := by
  obtain ⟨s, cs⟩ := n
  rw [rename_mk]
  rfl

@[simp] theorem id_rename (n : ConvertedNode) : (n.rename ρ).id = ρ n.id := by
  rw [id, state_rename]
  rfl

theorem links_rename (n : ConvertedNode) :
    (n.rename ρ).links = n.links.map fun l => (l.1, l.2.rename ρ) := by
  obtain ⟨s, cs⟩ := n
  simp [rename_mk, links, children, List.flatMap_map, List.map_flatMap, Function.comp_def]

theorem kids_rename (n : ConvertedNode) : (n.rename ρ).kids = n.kids.map (rename ρ) := by
  rw [kids_eq_map_links, kids_eq_map_links, links_rename, List.map_map, List.map_map]
  rfl

theorem subtrees_rename (n : ConvertedNode) : (n.rename ρ).subtrees = n.subtrees.map (rename ρ) := by
  have hkids : n.kids.flatMap (fun k => (k.rename ρ).subtrees) =
      n.kids.flatMap fun k => k.subtrees.map (rename ρ) :=
    List.flatMap_congr fun k hk =>
      have := sizeOf_lt_of_mem_kids hk
      subtrees_rename k
  rw [subtrees_eq, subtrees_eq n, kids_rename, List.flatMap_map, hkids, List.map_cons,
    List.map_flatMap]
termination_by sizeOf n

theorem instances_rename (n : ConvertedNode) :
    (n.rename ρ).instances = n.instances.map (·.rename ρ) := by
  simp only [instances, subtrees_rename, List.map_map, Function.comp_def, state_rename]

end

end ConvertedNode

namespace Graph

variable {ρ : InstanceId → InstanceId}

theorem linkEdges_rename (n : ConvertedNode) :
    linkEdges (n.rename ρ) = (linkEdges n).map (·.rename ρ) := by
  simp [linkEdges, ConvertedNode.links_rename, Edge.rename, Function.comp_def]

theorem putNode_rename (hρ : ρ.Injective) (n : GraphNode) (ns : List GraphNode) :
    putNode (n.rename ρ) (ns.map (·.rename ρ)) = (putNode n ns).map (·.rename ρ) := by
  induction ns with
  | nil => rfl
  | cons m ns ih =>
    have hid : (m.rename ρ).id = (n.rename ρ).id ↔ m.id = n.id := hρ.eq_iff
    simp only [List.map_cons, putNode, hid, ih]
    split <;> rfl

theorem insert_rename (hρ : ρ.Injective) (g : Graph) (i : Instance) :
    (g.rename ρ).insert (i.rename ρ) = (g.insert i).rename ρ := by
  have hnodes := putNode_rename hρ ⟨i.id, some i⟩ g.nodes
  simp only [insert, Graph.rename, ← hnodes]
  rfl

theorem ofConverted_rename (hρ : ρ.Injective) (root : ConvertedNode) :
    ofConverted (root.rename ρ) = (ofConverted root).rename ρ := by
  have hinsert : ∀ (is : List Instance) (g : Graph),
      (is.map (·.rename ρ)).foldl insert (g.rename ρ) = (is.foldl insert g).rename ρ := by
    intro is
    induction is with
    | nil => intro g; rfl
    | cons i is ih =>
      intro g
      rw [List.map_cons, List.foldl_cons, insert_rename hρ, ih, List.foldl_cons]
  have hnodes := hinsert root.instances {}
  have hedges : (root.subtrees.map (ConvertedNode.rename ρ)).flatMap linkEdges =
      (root.subtrees.flatMap linkEdges).map (·.rename ρ) := by
    simp only [List.flatMap_map, List.map_flatMap, linkEdges_rename]
  rw [ofConverted, ConvertedNode.instances_rename, ConvertedNode.subtrees_rename, hedges]
  exact congrArg (Graph.mk · _) (congrArg nodes hnodes)

theorem ofRoot_rename (hρ : ρ.Injective) (root : Option ConvertedNode) :
    ofRoot (root.map (ConvertedNode.rename ρ)) = (ofRoot root).rename ρ := by
  cases root with
  | none => rfl
  | some root => exact ofConverted_rename hρ root

end Graph

/-! ### Renamings of some ids -/

instance : Finite InstanceId :=
  .of_injective (fun id : InstanceId => id.number.toFin) fun a b h => by
    cases a
    cases b
    exact congrArg _ (UInt64.toFin_inj.1 h)

/-- A renaming that is injective on some ids agrees on them with one that is injective on all. -/
theorem exists_injective_eq_on {ρ : InstanceId → InstanceId} {ids : Set InstanceId}
    (h : Set.InjOn ρ ids) : ∃ σ : InstanceId → InstanceId, σ.Injective ∧ ∀ id ∈ ids, σ id = ρ id := by
  classical
  let e : { id // id ∈ ids } ≃ { id // id ∈ Set.image ρ ids } := Equiv.Set.imageOfInjOn ρ ids h
  refine ⟨e.extendSubtype, e.extendSubtype.injective, fun id hid => ?_⟩
  rw [e.extendSubtype_apply_of_mem id hid]
  rfl

/-- The renamed graph depends only on what becomes of the ids in the graph. -/
theorem Graph.rename_congr {ρ σ : InstanceId → InstanceId} {g : Graph}
    (h : ∀ id ∈ g.ids, σ id = ρ id) : g.rename σ = g.rename ρ := by
  have hnodes : ∀ n ∈ g.nodes, GraphNode.rename σ n = GraphNode.rename ρ n := by
    intro n hn
    have hmem : ∀ id ∈ n.id :: (n.state.map (·.id)).toList, σ id = ρ id := fun id hid =>
      h id (List.mem_append_left _ (List.mem_flatMap.2 ⟨n, hn, hid⟩))
    have hid := hmem n.id List.mem_cons_self
    cases hs : n.state with
    | none => simp [GraphNode.rename, hs, hid]
    | some i =>
      have hi := hmem i.id (by simp [hs])
      simp [GraphNode.rename, Instance.rename, hs, hid, hi]
  have hedges : ∀ e ∈ g.edges, Edge.rename σ e = Edge.rename ρ e := by
    intro e he
    have hmem : ∀ id ∈ [e.source, e.target], σ id = ρ id := fun id hid =>
      h id (List.mem_append_right _ (List.mem_flatMap.2 ⟨e, he, hid⟩))
    rw [Edge.rename, Edge.rename, hmem e.source (by simp), hmem e.target (by simp)]
  rw [Graph.rename, Graph.rename, List.map_congr_left hnodes, List.map_congr_left hedges]

theorem Graph.roots_subset_ids (g : Graph) : ∀ id ∈ g.roots, id ∈ g.ids := by
  intro id hid
  obtain ⟨n, hn, rfl⟩ := List.mem_map.1 (List.mem_filter.1 hid).1
  exact List.mem_append_left _ (List.mem_flatMap.2 ⟨n, hn, List.mem_cons_self⟩)

end SyntaxGraph
