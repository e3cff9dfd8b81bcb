import SyntaxGraph.Proofs.Emission.OfConverted
import SyntaxGraph.Proofs.Outline.Drawing
import SyntaxGraph.Proofs.Renaming.Basic

/-!
# What a renaming leaves

Emission and outlines use ids to find instances and children and to see where they were before, but
they never write them, as long as no ids are asked for. So under an injective renaming both write the
same text.

For emission this is said of the text of a node below its ancestors (`nodeText_rename`), whatever the
cycles and shared children of the graph. For outlines it is said of the sources: that of a renamed
graph or tree is an image (`graphSource_map`, `treeSource_map`), so its outline has the images of the
entries, and these have the same text.
-/

namespace SyntaxGraph

/-! ### Emission -/

namespace Emission

variable {ρ : InstanceId → InstanceId}

/-- By induction on what can still be entered: the renamed node is active, or without an instance,
exactly where the node is. -/
theorem nodeText_rename (hρ : ρ.Injective) (store : Store) (edges : List Edge)
    (path : List InstanceId) (id : InstanceId) :
    nodeText (store.rename ρ) (.build (edges.map (·.rename ρ))) (path.map ρ) (ρ id) =
      nodeText store (.build edges) path id := by
  by_cases ha : id ∈ path
  · rw [nodeText_of_mem ha, nodeText_of_mem (List.mem_map_of_mem ha)]
  · have ha' : ρ id ∉ path.map ρ := mt (List.mem_map_of_injective hρ).1 ha
    have hstate := Store.state?_rename hρ store id
    cases hs : store.state? id with
    | none => rw [nodeText_of_none hs, nodeText_of_none (by rw [hstate, hs]; rfl)]
    | some i =>
      have := Store.dormant_cons_lt hs ha
      rw [nodeText_of_some ha hs, nodeText_of_some (i := i.rename ρ) ha' (by rw [hstate, hs]; rfl)]
      have hfield : fieldText (store.rename ρ) (.build (edges.map (·.rename ρ)))
          (ρ id :: path.map ρ) (ρ id) = fieldText store (.build edges) (id :: path) id := by
        funext f
        rw [fieldText, fieldText, EdgeIndex.children_rename hρ, List.map_map]
        congr 1
        exact List.map_congr_left fun child _ => nodeText_rename hρ store edges (id :: path) child
      rw [hfield, Instance.fields_rename]
termination_by store.dormant path

/-- **Emission does not depend on ids.** -/
theorem emit_rename (hρ : ρ.Injective) (roots : List InstanceId) (store : Store)
    (edges : List Edge) :
    emit (roots.map ρ) (store.rename ρ) (edges.map (·.rename ρ)) = emit roots store edges := by
  rw [emit_eq_join_nodeText, emit_eq_join_nodeText, List.map_map]
  congr 1
  exact List.map_congr_left fun id _ => nodeText_rename hρ store edges [] id

end Emission

/-! ### Outlines -/

namespace Outline

section Graphs

variable {ρ : InstanceId → InstanceId}

theorem instanceLabel_rename (ρ : InstanceId → InstanceId) (i : Instance) :
    instanceLabel false (i.rename ρ) = instanceLabel false i :=
  rfl

theorem graphSource_map (hρ : ρ.Injective) (store : Store) (edges : List Edge) :
    (graphSource store (.build edges) false).Map
      (graphSource (store.rename ρ) (.build (edges.map (·.rename ρ))) false) ρ ρ where
  id _ := rfl
  label id := by
    simp only [graphSource, Store.state?_rename hρ]
    cases store.state? id with
    | none => rfl
    | some i => exact instanceLabel_rename ρ i
  children id := by
    simp only [graphSource, graphChildren, Store.state?_rename hρ]
    cases store.state? id with
    | none => rfl
    | some i =>
      simp only [Option.map_some, Instance.fields_rename, EdgeIndex.children_rename hρ,
        List.map_flatMap, List.map_map, Function.comp_def]

/-- **The outline of a graph does not depend on ids.** -/
theorem ofGraph_rename (hρ : ρ.Injective) {parameters : Parameters}
    (h : showsIds parameters = false) (g : Graph) :
    ofGraph parameters (g.rename ρ) = ofGraph parameters g := by
  have hmap : (sourceOf parameters g).Map (sourceOf parameters (g.rename ρ)) ρ ρ := by
    rw [sourceOf, sourceOf, h, Store.ofGraph_rename]
    exact graphSource_map hρ (.ofGraph g) g.edges
  obtain ⟨es, hes⟩ := exists_writes_ofGraph parameters g
  have hrenamed := hmap.writes hρ hes
  rw [← Graph.roots_rename hρ] at hrenamed
  rw [ofGraph_eq hrenamed, ofGraph_eq hes, hmap.join_text]

end Graphs

section Trees

variable {ρ : InstanceId → InstanceId}

theorem treeSource_map (ρ : InstanceId → InstanceId) :
    (treeSource false).Map (treeSource false) ρ (ConvertedNode.rename ρ) where
  id n := n.id_rename ρ
  label n := by
    simp only [treeSource, ConvertedNode.state_rename]
    exact instanceLabel_rename ρ n.state
  children n := n.links_rename ρ

/-- **The outline of a converted tree does not depend on ids.** -/
theorem ofConverted_rename (hρ : ρ.Injective) {parameters : Parameters}
    (h : showsIds parameters = false) (root : ConvertedNode) :
    ofConverted parameters (root.rename ρ) = ofConverted parameters root := by
  have hmap : (treeSource (showsIds parameters)).Map (treeSource (showsIds parameters)) ρ
      (ConvertedNode.rename ρ) := by
    rw [h]
    exact treeSource_map ρ
  obtain ⟨es, hes⟩ := exists_writes_ofConverted parameters root
  have hrenamed := hmap.writes hρ hes
  rw [List.map_singleton] at hrenamed
  rw [ofConverted_eq hrenamed, ofConverted_eq hes, hmap.join_text]

end Trees

end Outline

end SyntaxGraph
