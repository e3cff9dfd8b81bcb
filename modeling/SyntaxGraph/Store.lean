import SyntaxGraph.Graph.Basic

/-!
# Stores of instances

The instances that nodes have, by id. Of two instances under one id the first counts.
-/

namespace SyntaxGraph

/-- The instances that nodes have. -/
abbrev Store := List (InstanceId × Instance)

namespace Store

/-- The instance of a node. -/
def state? (store : Store) (id : InstanceId) : Option Instance :=
  store.lookup id

/-- The instances as a store, each under its own id. -/
def ofInstances (is : List Instance) : Store :=
  is.map fun i => (i.id, i)

/-- The instances of a graph. -/
def ofGraph (g : Graph) : Store :=
  g.nodes.filterMap fun n => n.state.map (n.id, ·)

/-- The number of stored instances whose ids are not among the given ones. -/
def dormant (store : Store) (ids : List InstanceId) : Nat :=
  (store.filter fun e => !decide (e.1 ∈ ids)).length

theorem dormant_cons_le (store : Store) (ids : List InstanceId) (id : InstanceId) :
    store.dormant (id :: ids) ≤ store.dormant ids := by
  unfold dormant
  rw [← List.countP_eq_length_filter, ← List.countP_eq_length_filter]
  exact List.countP_mono_left fun x _ hx => by simp_all

theorem dormant_cons_lt {store : Store} {ids : List InstanceId} {id : InstanceId} {i : Instance}
    (hs : store.state? id = some i) (ha : id ∉ ids) :
    store.dormant (id :: ids) < store.dormant ids := by
  induction store with
  | nil => simp [state?] at hs
  | cons e store ih =>
    obtain ⟨k, j⟩ := e
    have hle := dormant_cons_le store ids id
    by_cases hk : k = id
    · subst hk
      simp only [dormant] at hle ⊢
      rw [List.filter_cons_of_neg (by simp), List.filter_cons_of_pos (by simpa using ha)]
      simp only [List.length_cons]
      omega
    · have hs' : state? store id = some i := by
        have hne : (id == k) = false := by simpa using Ne.symm hk
        simpa [state?, List.lookup_cons, hne] using hs
      have ih := ih hs'
      simp only [dormant] at ih ⊢
      by_cases hm : k ∈ ids
      · rw [List.filter_cons_of_neg (by simp [hm]), List.filter_cons_of_neg (by simp [hm])]
        exact ih
      · rw [List.filter_cons_of_pos (by simp [hm, hk]), List.filter_cons_of_pos (by simp [hm])]
        simp only [List.length_cons]
        omega

end Store

end SyntaxGraph
