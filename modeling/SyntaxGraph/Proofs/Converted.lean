import Mathlib.Data.List.Nodup
import Mathlib.Data.List.Perm.Basic
import SyntaxGraph.Converted
import SyntaxGraph.Table

/-!
# The nodes of a converted tree

The list of all nodes of a converted tree by the children of its root, and what is true of a tree in
which no id and no field of a node comes twice.
-/

namespace SyntaxGraph.ConvertedNode

/-- The children in all fields, in order. -/
def kids (n : ConvertedNode) : List ConvertedNode :=
  n.children.flatMap (·.2)

theorem kids_eq_map_links (n : ConvertedNode) : n.kids = n.links.map (·.2) := by
  simp [kids, links, List.map_flatMap, Function.comp_def]

theorem sizeOf_lt_of_mem_kids {n m : ConvertedNode} (h : m ∈ n.kids) : sizeOf m < sizeOf n := by
  rw [kids_eq_map_links, List.mem_map] at h
  obtain ⟨⟨field, m⟩, hm, rfl⟩ := h
  exact sizeOf_lt_of_mem_links hm

theorem mem_kids_of_mem_childrenOf {n m : ConvertedNode} {field : String}
    (h : m ∈ n.childrenOf field) : m ∈ n.kids := by
  unfold childrenOf at h
  cases hcs : n.children.lookup field with
  | none => simp [hcs] at h
  | some cs =>
    exact List.mem_flatMap.2 ⟨(field, cs), Table.mem_of_lookup hcs, by simpa [hcs] using h⟩

/-! ### All nodes -/

theorem subtreesOfNodes_eq_flatMap (ns : List ConvertedNode) :
    subtreesOfNodes ns = ns.flatMap subtrees := by
  induction ns with
  | nil => rw [subtreesOfNodes]; rfl
  | cons n ns ih => rw [subtreesOfNodes, ih]; rfl

theorem subtreesOfFields_eq_flatMap (fs : List (String × List ConvertedNode)) :
    subtreesOfFields fs = fs.flatMap fun f => f.2.flatMap subtrees := by
  induction fs with
  | nil => rw [subtreesOfFields]; rfl
  | cons f fs ih =>
    obtain ⟨name, ns⟩ := f
    rw [subtreesOfFields, ih, subtreesOfNodes_eq_flatMap]
    rfl

theorem subtrees_eq (n : ConvertedNode) : n.subtrees = n :: n.kids.flatMap subtrees := by
  obtain ⟨s, fs⟩ := n
  rw [subtrees, subtreesOfFields_eq_flatMap, kids, List.flatMap_assoc]
  rfl

theorem instances_eq (n : ConvertedNode) : n.instances = n.state :: n.kids.flatMap instances := by
  rw [instances, subtrees_eq, List.map_cons, List.map_flatMap]
  rfl

theorem self_mem_subtrees (n : ConvertedNode) : n ∈ n.subtrees := by
  rw [subtrees_eq]
  exact List.mem_cons_self

theorem mem_subtrees_of_mem_kids {n m : ConvertedNode} (h : m ∈ n.kids) : m ∈ n.subtrees := by
  rw [subtrees_eq]
  exact List.mem_cons_of_mem n (List.mem_flatMap.2 ⟨m, h, m.self_mem_subtrees⟩)

/-- The nodes below a node of a tree stand among the nodes of the tree, in the same order. -/
theorem sublist_subtrees {root n : ConvertedNode} (h : n ∈ root.subtrees) :
    n.subtrees.Sublist root.subtrees := by
  rw [subtrees_eq root] at h ⊢
  rcases List.mem_cons.1 h with rfl | h
  · rw [← subtrees_eq]
  · obtain ⟨m, hm, hn⟩ := List.mem_flatMap.1 h
    have hkid : m.subtrees.Sublist (root.kids.flatMap subtrees) := by
      obtain ⟨before, after, hsplit⟩ := List.append_of_mem hm
      rw [hsplit, List.flatMap_append, List.flatMap_cons]
      exact (List.sublist_append_left _ _).trans (List.sublist_append_right _ _)
    have := sizeOf_lt_of_mem_kids hm
    exact ((sublist_subtrees hn).trans hkid).cons root
termination_by sizeOf root

/-- A node is the root or a child of some node. -/
theorem eq_or_exists_kid {root n : ConvertedNode} (h : n ∈ root.subtrees) :
    n = root ∨ ∃ p ∈ root.subtrees, n ∈ p.kids := by
  rw [subtrees_eq] at h
  rcases List.mem_cons.1 h with rfl | h
  · exact .inl rfl
  · obtain ⟨m, hm, hn⟩ := List.mem_flatMap.1 h
    have := sizeOf_lt_of_mem_kids hm
    right
    rcases eq_or_exists_kid hn with rfl | ⟨p, hp, hnp⟩
    · exact ⟨root, root.self_mem_subtrees, hm⟩
    · exact ⟨p, (sublist_subtrees (mem_subtrees_of_mem_kids hm)).subset hp, hnp⟩
termination_by sizeOf root

/-- The children of a node stand below the root. -/
theorem mem_below_of_mem_kids {root p n : ConvertedNode} (hp : p ∈ root.subtrees)
    (hn : n ∈ p.kids) : n ∈ root.kids.flatMap subtrees := by
  rw [subtrees_eq] at hp
  rcases List.mem_cons.1 hp with rfl | hp
  · exact List.mem_flatMap.2 ⟨n, hn, n.self_mem_subtrees⟩
  · obtain ⟨m, hm, hpm⟩ := List.mem_flatMap.1 hp
    exact List.mem_flatMap.2
      ⟨m, hm, (sublist_subtrees hpm).subset (mem_subtrees_of_mem_kids hn)⟩

open scoped List in
/-- The children of all nodes are the nodes below the root. -/
theorem flatMap_kids_perm (root : ConvertedNode) :
    root.subtrees.flatMap kids ~ root.kids.flatMap subtrees := by
  have hkids : (root.kids.flatMap fun k => k.subtrees.flatMap kids) ~
      root.kids.flatMap fun k => k.kids.flatMap subtrees :=
    List.Perm.flatMap_left _ fun k hk =>
      have := sizeOf_lt_of_mem_kids hk
      flatMap_kids_perm k
  calc root.subtrees.flatMap kids
      = root.kids ++ root.kids.flatMap fun k => k.subtrees.flatMap kids := by
        rw [subtrees_eq, List.flatMap_cons, List.flatMap_assoc]
    _ ~ root.kids ++ root.kids.flatMap fun k => k.kids.flatMap subtrees := hkids.append_left _
    _ = (root.kids.flatMap fun k => [k]) ++
          root.kids.flatMap fun k => k.kids.flatMap subtrees := by simp
    _ ~ root.kids.flatMap fun k => [k] ++ k.kids.flatMap subtrees :=
        List.flatMap_append_perm _ _ _
    _ = root.kids.flatMap subtrees := by
        refine List.flatMap_congr fun k _ => ?_
        rw [subtrees_eq k]
        rfl
termination_by sizeOf root

/-! ### Trees without repetition -/

/-- No two nodes of the tree have the same id, and no node has two fields of the same name. -/
structure Simple (root : ConvertedNode) : Prop where
  ids : (root.subtrees.map id).Nodup
  keys : ∀ n ∈ root.subtrees, (n.children.map (·.1)).Nodup

theorem Simple.subtree {root n : ConvertedNode} (h : root.Simple) (hn : n ∈ root.subtrees) :
    n.Simple where
  ids := h.ids.sublist ((sublist_subtrees hn).map id)
  keys m hm := h.keys m ((sublist_subtrees hn).subset hm)

/-- The id of the root is not among those below it. -/
theorem Simple.root_id_notMem {root : ConvertedNode} (h : root.Simple) :
    root.id ∉ (root.kids.flatMap subtrees).map id := by
  have hids := h.ids
  rw [subtrees_eq, List.map_cons, List.nodup_cons] at hids
  exact hids.1

/-- The children of a field are those that the links of its name lead to. -/
theorem childrenOf_eq {n : ConvertedNode} (h : (n.children.map (·.1)).Nodup) (field : String) :
    n.childrenOf field = (n.links.filter fun l => l.1 == field).map (·.2) := by
  obtain ⟨s, fs⟩ := n
  simp only [childrenOf, links, children] at h ⊢
  induction fs with
  | nil => rfl
  | cons f fs ih =>
    obtain ⟨k, cs⟩ := f
    obtain ⟨hk, hfs⟩ := List.nodup_cons.1 h
    rw [List.flatMap_cons, List.filter_append, List.map_append, ← ih hfs]
    by_cases hkf : k = field
    · subst hkf
      simp [Table.lookup_of_notMem hk, List.filter_map, Function.comp_def]
    · have hne : (field == k) = false := by simpa using Ne.symm hkf
      simp [List.lookup_cons, hne, List.filter_map, Function.comp_def, hkf]

end SyntaxGraph.ConvertedNode
