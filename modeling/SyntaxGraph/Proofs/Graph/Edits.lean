import SyntaxGraph.Graph.Edit
import SyntaxGraph.Proofs.Conversion.Resolution

/-!
# What an edit can do

The nine edits of a graph as one step, `perform`, in which an edit that fails leaves everything as it
was. Whatever the edit, the step is one of six changes: nothing happens, a node is put under an id, a
node is taken out with the edges at it, an instance is exchanged for one with the same id and the
same node fields, a field is linked to a node, or an edge is taken out.
-/

namespace SyntaxGraph

/-! ### Updates of an instance -/

theorem Units.bare_of_withChoice? {us vs : List FieldUnit} {index : Nat} {path : List Nat}
    (h : Units.withChoice? us index path = some vs) : Units.bare vs = Units.bare us := by
  -- a unit is exchanged for one of the same bare form, at this level or further down
  have hset : ∀ {ws : List FieldUnit} {i : Nat} {u v : FieldUnit}, ws[i]? = some u →
      v.bare = u.bare → Units.bare (ws.set i v) = Units.bare ws := by
    intro ws i u v hu hv
    have hbare : (ws.map FieldUnit.bare)[i]? = some u.bare := by simp [hu]
    obtain ⟨hi, hget⟩ := List.getElem?_eq_some_iff.1 hbare
    rw [Units.bare_eq_map, Units.bare_eq_map, List.map_set, hv, ← hget, List.set_getElem_self]
  induction path generalizing us vs with
  | nil => simp [Units.withChoice?] at h
  | cons i path ih =>
    cases path with
    | nil =>
      simp only [Units.withChoice?] at h
      split at h
      · rename_i n o cs k hu
        obtain rfl := Option.some.inj h
        exact hset hu (by simp only [FieldUnit.bare])
      · simp at h
    | cons j path =>
      simp only [Units.withChoice?] at h
      split at h
      · rename_i u hu
        obtain ⟨cs, hcs, rfl⟩ := Option.map_eq_some_iff.1 h
        have hbelow := ih hcs
        refine hset hu ?_
        cases u with
        | single f v => rfl
        | choice n o ds k =>
          simp only [FieldUnit.children] at hbelow
          simp only [FieldUnit.withChildren, FieldUnit.bare, hbelow]
        | sequence ds =>
          simp only [FieldUnit.children] at hbelow
          simp only [FieldUnit.withChildren, FieldUnit.bare, hbelow]
      · simp at h

namespace Instance

theorem nodeFields_withValue (i : Instance) (field : String) (value : Option String) :
    (i.withValue field value).nodeFields = i.nodeFields := by
  refine Conversion.nodeFields_congr ?_
  rw [withValue, Conversion.withValue_eq_mapTexts, Conversion.bare_mapTexts]

theorem nodeFields_of_withChoice? {i j : Instance} {path : List Nat} {index : Nat}
    (h : i.withChoice? path index = some j) : j.nodeFields = i.nodeFields := by
  obtain ⟨us, hus, rfl⟩ := Option.map_eq_some_iff.1 h
  exact Conversion.nodeFields_congr (Units.bare_of_withChoice? hus)

end Instance

namespace Graph

/-! ### Edits -/

/-- An edit of a graph. -/
inductive Edit where
  | addNode (t : Template)
  | addNamed (c : Schema.Catalog) (name : String)
  | addPlaceholder
  | insert (i : Instance)
  | removeNode (id : InstanceId)
  | setValue (id : InstanceId) (field : String) (value : Option String)
  | selectChoice (id : InstanceId) (path : List Nat) (index : Nat)
  | connect (source : InstanceId) (field : String) (target : InstanceId)
  | disconnect (source : InstanceId) (field : String) (target : InstanceId)

/-- What an edit leaves behind. -/
structure Edited where
  /-- The ids that were taken from the counter. -/
  taken : List InstanceId
  graph : Graph
  counter : Counter

/-- The outcome of adding a node with a new id. -/
def Edited.ofNew (r : InstanceId × Graph × Counter) : Edited :=
  ⟨[r.1], r.2.1, r.2.2⟩

/-- The outcome of an edit that takes no id: a failed one leaves the graph as it was. -/
def Edited.ofResult (g : Graph) (counter : Counter) : Except Error Graph → Edited
  | .ok h => ⟨[], h, counter⟩
  | .error _ => ⟨[], g, counter⟩

/-- Makes an edit. -/
def perform (g : Graph) (counter : Counter) : Edit → Edited
  | .addNode t => .ofNew (g.addNode t counter)
  | .addNamed c name =>
    match g.addNamed c name counter with
    | .ok r => .ofNew r
    | .error _ => ⟨[], g, counter⟩
  | .addPlaceholder => .ofNew (g.addPlaceholder counter)
  | .insert i => ⟨[], g.insert i, counter⟩
  | .removeNode id => .ofResult g counter ((g.removeNode id).map (·.2))
  | .setValue id field value => .ofResult g counter (g.setValue id field value)
  | .selectChoice id path index => .ofResult g counter (g.selectChoice id path index)
  | .connect source field target => .ofResult g counter (g.connect source field target)
  | .disconnect source field target => ⟨[], (g.disconnect source field target).2, counter⟩

/-- The id under which an edit puts a node. -/
def Edit.place? (counter : Counter) : Edit → Option InstanceId
  | .addNode _ => some counter.fresh.1
  | .addNamed c name => (c.template? name).map fun _ => counter.fresh.1
  | .addPlaceholder => some counter.fresh.1
  | .insert i => some i.id
  | _ => none

/-! ### Changes -/

/-- How one graph comes from another by an edit that puts nodes only where `may` allows it. -/
inductive Change (may : InstanceId → Prop) (g : Graph) : Graph → Prop where
  | keep : Change may g g
  | put (n : GraphNode) (hmay : may n.id) (hstate : ∀ i, n.state = some i → i.id = n.id) :
    Change may g { g with nodes := putNode n g.nodes }
  | remove (id : InstanceId) : Change may g {
      nodes := g.nodes.filter (·.id != id)
      edges := g.edges.filter fun e => e.source != id && e.target != id }
  | restate {id : InstanceId} {i j : Instance} (hi : g.state? id = some i) (hid : j.id = i.id)
    (hfields : j.nodeFields = i.nodeFields) : Change may g (g.withState id j)
  | link {source target : InstanceId} {field : String} {i : Instance} {kind : FieldKind}
    (htarget : g.contains target = true) (hi : g.state? source = some i)
    (hkind : i.nodeFieldKind? field = some kind) : Change may g { g with
      edges := g.edges.filter (staysBeside kind source field target) ++ [⟨source, field, target⟩] }
  | unlink (e : Edge) : Change may g { g with edges := g.edges.filter (· != e) }

section Change

variable {g : Graph} {counter : Counter} {may : InstanceId → Prop}

theorem liveState_eq_ok {id : InstanceId} {i : Instance} (h : g.liveState id = .ok i) :
    g.state? id = some i := by
  unfold liveState at h
  unfold state?
  split at h
  · simp at h
  · rename_i n hn
    split at h
    · simp at h
    · rename_i j hj
      simpa [hn, hj] using h

theorem nodeFieldKind_eq_ok {id : InstanceId} {field : String} {kind : FieldKind}
    (h : g.nodeFieldKind id field = .ok kind) :
    ∃ i, g.state? id = some i ∧ i.nodeFieldKind? field = some kind := by
  obtain ⟨i, hi, h⟩ := Schema.exists_of_bind_eq_ok h
  split at h
  · rename_i k hk
    obtain rfl := Except.ok.inj h
    exact ⟨i, liveState_eq_ok hi, hk⟩
  · simp at h

theorem change_setValue {id : InstanceId} {field : String} {value : Option String} {g' : Graph}
    (h : g.setValue id field value = .ok g') : Change may g g' := by
  obtain ⟨i, hi, rfl⟩ := Schema.exists_of_map_eq_ok h
  exact .restate (liveState_eq_ok hi) (i.id_withValue field value)
    (i.nodeFields_withValue field value)

theorem change_selectChoice {id : InstanceId} {path : List Nat} {index : Nat} {g' : Graph}
    (h : g.selectChoice id path index = .ok g') : Change may g g' := by
  obtain ⟨i, hi, h⟩ := Schema.exists_of_bind_eq_ok h
  split at h
  · split at h
    · split at h
      · rename_i j hj
        obtain rfl := Except.ok.inj h
        exact .restate (liveState_eq_ok hi) (Instance.id_of_withChoice? hj)
          (Instance.nodeFields_of_withChoice? hj)
      · simp at h
    · simp at h
  · simp at h

theorem change_connect {source target : InstanceId} {field : String} {g' : Graph}
    (h : g.connect source field target = .ok g') : Change may g g' := by
  unfold connect at h
  split at h
  · rename_i htarget
    obtain ⟨kind, hkind, h⟩ := Schema.exists_of_bind_eq_ok h
    obtain ⟨i, hi, hk⟩ := nodeFieldKind_eq_ok hkind
    obtain rfl := Except.ok.inj h
    exact .link htarget hi hk
  · simp at h

theorem change_removeNode {id : InstanceId} {n : GraphNode} {g' : Graph}
    (h : g.removeNode id = .ok (n, g')) : Change may g g' := by
  unfold removeNode at h
  split at h
  · obtain ⟨-, rfl⟩ := Prod.mk.inj (Except.ok.inj h)
    exact .remove id
  · simp at h

theorem change_addNode (t : Template) (hmay : may counter.fresh.1) :
    Change may g (g.addNode t counter).2.1 :=
  .put ⟨counter.fresh.1, some (Instance.stamp t counter).1⟩ hmay (by simp [Instance.stamp])

/-- An edit that takes no id and may fail makes a change if its success does. -/
theorem change_ofResult {r : Except Error Graph} (h : ∀ g', r = .ok g' → Change may g g') :
    Change may g (Edited.ofResult g counter r).graph := by
  cases r with
  | error e => exact .keep
  | ok g' => exact h g' rfl

/-- **What an edit can do.** Every edit makes one of the changes, and puts a node at most under the id
that is its place. -/
theorem change_perform (g : Graph) (counter : Counter) (e : Edit) :
    Change (fun id => e.place? counter = some id) g (g.perform counter e).graph := by
  cases e with
  | addNode t => exact change_addNode t rfl
  | addNamed c name =>
    simp only [perform, addNamed]
    cases ht : c.template? name with
    | none => exact .keep
    | some t => exact change_addNode t (by simp [Edit.place?, ht])
  | addPlaceholder => exact .put ⟨counter.fresh.1, none⟩ rfl (by simp)
  | insert i => exact .put ⟨i.id, some i⟩ rfl (by simp)
  | removeNode id =>
    refine change_ofResult fun g' h => ?_
    obtain ⟨r, hr, rfl⟩ := Schema.exists_of_map_eq_ok h
    exact change_removeNode hr
  | setValue id field value => exact change_ofResult fun g' h => change_setValue h
  | selectChoice id path index => exact change_ofResult fun g' h => change_selectChoice h
  | connect source field target => exact change_ofResult fun g' h => change_connect h
  | disconnect source field target => exact .unlink ⟨source, field, target⟩

theorem Change.mono {may' : InstanceId → Prop} (hmay : ∀ id, may id → may' id) {g' : Graph}
    (h : Change may g g') : Change may' g g' := by
  cases h with
  | keep => exact .keep
  | put n hn hstate => exact .put n (hmay n.id hn) hstate
  | remove id => exact .remove id
  | restate hi hid hfields => exact .restate hi hid hfields
  | link htarget hi hkind => exact .link htarget hi hkind
  | unlink e => exact .unlink e

end Change

end Graph

end SyntaxGraph
