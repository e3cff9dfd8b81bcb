import Mathlib.Logic.Relation
import SyntaxGraph.Proofs.Graph.OfConverted
import SyntaxGraph.Proofs.Outline.Drawing

/-!
# The outline of a graph

Whatever cycles and shared nodes a graph has, its outline ends, and it has an entry for exactly
those nodes that can be reached from the roots along edges of named node fields. The children of a
node are listed under its first entry only, and every entry is that of a root or of a listed child.

That no node is missed is known from the lines as a whole: a child of a node that was shown has an
entry or waits on the stack, and in the end none is waiting. So it does not matter where in the
outline a node is met first.
-/

namespace SyntaxGraph

namespace Graph

/-- The first node has an instance, and an edge leads from one of its named node fields to the
second. -/
def Lists (g : Graph) (a b : InstanceId) : Prop :=
  ∃ i, (Store.ofGraph g).state? a = some i ∧ ∃ field, i.hasNodeField field = true ∧
    field.isEmpty = false ∧ ⟨a, field, b⟩ ∈ g.edges

/-- The node can be reached from a root. -/
def Reaches (g : Graph) (id : InstanceId) : Prop :=
  ∃ r ∈ g.roots, Relation.ReflTransGen g.Lists r id

end Graph

namespace Outline

variable {parameters : Parameters} {g : Graph}

/-- The children that are listed under a node are those at the end of such an edge. -/
theorem mem_children_sourceOf {a b : InstanceId} :
    b ∈ ((sourceOf parameters g).children a).map (·.2) ↔ g.Lists a b := by
  simp only [sourceOf, graphSource, graphChildren, Graph.Lists]
  cases (Store.ofGraph g).state? a with
  | none => simp
  | some i =>
    simp only [Units.nodeFieldNames, List.map_flatMap, List.map_map, Function.comp_def,
      List.map_id', List.mem_flatMap, Units.mem_distinct, EdgeIndex.mem_children_build,
      Option.some.injEq, exists_eq_left', Instance.hasNodeField, Instance.nodeFields, List.mem_map,
      List.any_eq_true, beq_iff_eq]

section Entries

variable {es : List (Entry InstanceId)}

/-- The nodes that have an entry are those whose children are listed. -/
theorem Writes.mem_expanded_iff (h : Writes (sourceOf parameters g) g.roots es) {id : InstanceId} :
    id ∈ expanded es ↔ id ∈ es.map (·.line.node) := by
  obtain ⟨e, hes, -⟩ := h
  constructor
  · exact fun hid => (List.filter_sublist.map _).subset hid
  · intro hid
    obtain ⟨x, hx, rfl⟩ := List.mem_map.1 hid
    have hshown : x.line.node ∈ e.shown := hes.id_mem_shown x hx
    have hids : (expanded es).map (sourceOf parameters g).id = expanded es := List.map_id _
    rwa [hes.shown_eq, hids, start, List.append_nil, List.mem_reverse] at hshown

open scoped List in
/-- The entries are those of the roots and of the listed children. -/
theorem Writes.nodes_perm (h : Writes (sourceOf parameters g) g.roots es) :
    es.map (·.line.node) ~ g.roots ++ (expanded es).flatMap fun id =>
      ((sourceOf parameters g).children id).map (·.2) := by
  obtain ⟨e, hes, hend⟩ := h
  have hperm := hes.nodes_perm
  rw [hend, List.map_nil, List.append_nil] at hperm
  simpa only [start, List.map_map, Function.comp_def, rootLine, List.map_id'] using hperm

/-- **The nodes with an entry are those in reach of the roots.** -/
theorem Writes.mem_nodes_iff (h : Writes (sourceOf parameters g) g.roots es) {id : InstanceId} :
    id ∈ es.map (·.line.node) ↔ g.Reaches id := by
  constructor
  · intro hid
    obtain ⟨x, hx, rfl⟩ := List.mem_map.1 hid
    obtain ⟨e, hes, -⟩ := h
    refine hes.forall_node (P := g.Reaches) ?_ ?_ x hx
    · rintro a ⟨r, hr, hra⟩ c hc
      exact ⟨r, hr, hra.tail (mem_children_sourceOf.1 (List.mem_map_of_mem hc))⟩
    · intro l hl
      obtain ⟨r, hr, rfl⟩ := List.mem_map.1 hl
      exact ⟨r, hr, .refl⟩
  · rintro ⟨r, hr, hreach⟩
    -- the children of a node with an entry are listed, and so they have entries too
    induction hreach with
    | refl => exact h.nodes_perm.mem_iff.2 (List.mem_append_left _ hr)
    | @tail a b _ hlists ih =>
      have hlisted : a ∈ expanded es := h.mem_expanded_iff.2 ih
      exact h.nodes_perm.mem_iff.2 (List.mem_append_right _
        (List.mem_flatMap.2 ⟨a, hlisted, mem_children_sourceOf.2 hlists⟩))

end Entries

/-- **The outline of a graph ends and is complete.** It is the text of entries, one for each line
that is taken off the stack until none is left. No node has its children listed twice; an entry is
marked exactly when an earlier one has its node; the nodes with an entry are those in reach of the
roots; and there is one entry for each root and for each listed child. -/
theorem entries_ofGraph (parameters : Parameters) (g : Graph) :
    ∃ es, Writes (sourceOf parameters g) g.roots es ∧
      ofGraph parameters g = String.join (es.map (Entry.text (sourceOf parameters g))) ∧
      (expanded es).Nodup ∧
      (∀ before x after, es = before ++ x :: after →
        (x.again = true ↔ x.line.node ∈ before.map (·.line.node))) ∧
      (∀ id, id ∈ es.map (·.line.node) ↔ g.Reaches id) ∧
      es.length = g.roots.length +
        total ((expanded es).map fun id => ((sourceOf parameters g).children id).length) := by
  obtain ⟨es, h⟩ := exists_writes_ofGraph parameters g
  obtain ⟨e, hes, -⟩ := id h
  refine ⟨es, h, ofGraph_eq h, ?_, ?_, fun id => h.mem_nodes_iff, ?_⟩
  · have hshown := hes.nodup_shown List.nodup_nil
    have hids : (expanded es).map (sourceOf parameters g).id = expanded es := List.map_id _
    rwa [hes.shown_eq, hids, start, List.append_nil, List.nodup_reverse] at hshown
  · intro before x after hsplit
    rw [hes.again_iff hsplit, start, or_iff_right List.not_mem_nil]
    rfl
  · have hlength := h.nodes_perm.length_eq
    simpa only [List.length_append, length_flatMap, List.length_map] using hlength

end Outline

end SyntaxGraph
