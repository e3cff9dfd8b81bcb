import SyntaxGraph.Proofs.Process.Ledger

/-!
# The graphs of a process

What is true of every graph of a process, however it began and whatever was done to it. Nodes,
instances and edges always fit together. A graph that was not loaded has at most one edge into a
node; and unless an insertion put an instance in the place of a node, its edges come from node fields
of instances. A graph that began empty then has at most one edge from a field for a single node.

All this is as long as no new node gets an id that the graph has. A process that hands out fewer than
`2 ^ 63` ids never comes to that, because its counter stands above the ids of all graphs.
-/

namespace SyntaxGraph

/-! ### The place of a new node -/

/-- The place of an edit is a new id, or the id of an instance that is inserted. -/
theorem Graph.Edit.place?_eq_some {e : Graph.Edit} {counter : Counter} {id : InstanceId}
    (h : e.place? counter = some id) (g : Graph) :
    (id = counter.fresh.1 ∧ (g.perform counter e).taken = [id]) ∨ ∃ i, e = .insert i ∧ id = i.id := by
  cases e with
  | addNode t =>
    obtain rfl := Option.some.inj h
    exact .inl ⟨rfl, rfl⟩
  | addNamed c name =>
    simp only [place?] at h
    obtain ⟨t, ht, rfl⟩ := Option.map_eq_some_iff.1 h
    have hadd : g.addNamed c name counter = .ok (g.addNode t counter) := by
      simp only [Graph.addNamed, ht]
    refine .inl ⟨rfl, ?_⟩
    simp only [Graph.perform, hadd]
    rfl
  | addPlaceholder =>
    obtain rfl := Option.some.inj h
    exact .inl ⟨rfl, rfl⟩
  | insert i =>
    obtain rfl := Option.some.inj h
    exact .inr ⟨i, rfl, rfl⟩
  | _ => simp [place?] at h

/-- What an edit takes from the counter is the next id. -/
theorem Graph.eq_fresh_of_mem_taken {g : Graph} {counter : Counter} {e : Graph.Edit}
    {id : InstanceId} (h : id ∈ (g.perform counter e).taken) : id = counter.fresh.1 := by
  obtain ⟨number, hle, htaken, -⟩ := g.exists_taken_perform counter e
  rw [htaken] at h
  have hnumber : number = 0 ∨ number = 1 := by omega
  rcases hnumber with rfl | rfl
  · simp at h
  · exact List.mem_singleton.1 h

/-- The next id of a process is not the id of a node. -/
theorem Ledger.Sound.contains_fresh {l : Ledger} (hl : l.Sound) {g : Graph}
    (hknown : ∀ n ∈ g.nodes, n.id ∈ l.known) : g.contains l.counter.fresh.1 = false := by
  rw [Graph.contains_eq_false_iff]
  intro hmem
  obtain ⟨n, hn, hid⟩ := List.mem_map.1 hmem
  have hlt := hl.known_lt n.id (hknown n hn)
  rw [hid] at hlt
  exact Nat.lt_irrefl _ hlt

namespace Process

/-! ### What holds of a graph -/

/-- What holds of a graph of a process. -/
structure Keeps (p : Process) (l : LiveGraph) : Prop where
  linked : l.graph.Linked
  known : ∀ n ∈ l.graph.nodes, n.id ∈ p.ids.known
  input : l.origin = .empty ∨ l.origin = .converted ∧ l.reissued = false → l.graph.SingleInput
  typed : l.origin ≠ .loaded → l.replaced = false → l.reissued = false → l.graph.Typed
  output : l.origin = .empty → l.replaced = false → l.reissued = false → l.graph.SingleOutput
  once : p.ids.Few → l.reissued = false

variable {p p' : Process} {l : LiveGraph}

theorem Keeps.mono (hmove : p.ids.Move p'.ids) (h : p.Keeps l) : p'.Keeps l where
  linked := h.linked
  known n hn := hmove.mem_known (h.known n hn)
  input := h.input
  typed := h.typed
  output := h.output
  once hfew := h.once (hmove.few hfew)

theorem keeps_empty (p : Process) (origin : Origin) :
    p.Keeps { graph := {}, origin := origin } where
  linked := Graph.linked_empty
  known := by simp
  input _ := Graph.singleInput_empty
  typed _ _ _ := Graph.typed_empty
  output _ _ _ := Graph.singleOutput_empty
  once _ := rfl

/-- A graph that has just been converted. -/
theorem keeps_converted {c : Schema.Catalog} {root : Tree.Node} {node : ConvertedNode}
    (hnode : (Conversion.convert c root p.ids.counter).1.root = some node)
    (hids : p'.ids.issued = p.ids.issued ++ LiveGraph.idsOf (some node))
    (hsound : p'.ids.Few → p'.ids.Sound) : p'.Keeps (.ofRoot (some node)) := by
  rw [Conversion.convert_eq] at hnode
  have hidsOf : LiveGraph.idsOf (some node) = node.subtrees.map (·.id) := by
    simp [LiveGraph.idsOf, ConvertedNode.instances, ConvertedNode.id]
  have hsimple : (LiveGraph.ofRoot (some node)).reissued = false → node.Simple := by
    intro honce
    refine ⟨?_, Conversion.nodup_keys_subtrees hnode⟩
    simpa [LiveGraph.ofRoot, hidsOf] using honce
  refine ⟨Graph.linked_ofConverted node, ?_, ?_, ?_, ?_, ?_⟩
  · intro n hn
    have hmem := Graph.mem_ids_ofConverted.1 (List.mem_map_of_mem hn)
    refine List.mem_append_left _ ?_
    rw [hids]
    exact List.mem_append_right _ (by simpa [LiveGraph.idsOf] using hmem)
  · rintro (horigin | ⟨-, honce⟩)
    · simp [LiveGraph.ofRoot] at horigin
    · exact Graph.singleInput_ofConverted (hsimple honce)
  · intro _ _ honce
    refine Graph.typed_ofConverted (hsimple honce) fun n hn f hf => ?_
    obtain ⟨k, counter, hk⟩ := Conversion.converts_of_mem_subtrees ⟨p.ids.counter, hnode⟩ n hn
    exact Conversion.hasNodeField_of_mem_children hk hf
  · intro horigin
    simp [LiveGraph.ofRoot] at horigin
  · intro hfew
    have hnodup := (hsound hfew).nodup
    rw [hids] at hnodup
    simpa [LiveGraph.ofRoot] using (List.nodup_append.1 hnodup).2.1

/-- A graph that has just been edited. -/
theorem keeps_edited {e : Graph.Edit} (hsound : p.ids.Few → p.ids.Sound) (hmove : p.ids.Move p'.ids)
    (h : p.Keeps l) (hpossible : e.isPossible p.ids.known = true)
    (hids : p'.ids.issued = p.ids.issued ++ (l.graph.perform p.ids.counter e).taken) :
    p'.Keeps (l.edit p.ids.counter e) := by
  have hchange := Graph.change_perform l.graph p.ids.counter e
  have hreplaced : (l.edit p.ids.counter e).replaced = false →
      l.replaced = false ∧ e.replaces l.graph = false := by
    simp [LiveGraph.edit]
  have honce : (l.edit p.ids.counter e).reissued = false → l.reissued = false ∧
      ∀ id ∈ (l.graph.perform p.ids.counter e).taken, l.graph.contains id = false := by
    simp [LiveGraph.edit]
  -- then the edit puts a node only under an id that the graph does not have
  have hnew : (l.edit p.ids.counter e).replaced = false →
      (l.edit p.ids.counter e).reissued = false →
      Graph.Change (fun id => l.graph.contains id = false) l.graph
        (l.graph.perform p.ids.counter e).graph := by
    intro hr ho
    refine hchange.mono fun id hid => ?_
    rcases Graph.Edit.place?_eq_some hid l.graph with ⟨-, htaken⟩ | ⟨i, rfl, rfl⟩
    · exact (honce ho).2 id (by simp [htaken])
    · exact (hreplaced hr).2
  refine ⟨hchange.linked h.linked, ?_, ?_, ?_, ?_, ?_⟩
  · intro n hn
    rcases hchange.mem_ids hn with hmem | hplace
    · obtain ⟨m, hm, hid⟩ := List.mem_map.1 hmem
      rw [← hid]
      exact hmove.mem_known (h.known m hm)
    · rcases Graph.Edit.place?_eq_some hplace l.graph with ⟨-, htaken⟩ | ⟨i, rfl, hid⟩
      · refine List.mem_append_left _ ?_
        rw [hids, htaken]
        exact List.mem_append_right _ List.mem_cons_self
      · rw [hid]
        exact hmove.mem_known (by simpa [Graph.Edit.isPossible] using hpossible)
  · intro horigin
    exact hchange.singleInput
      (h.input (horigin.imp_right fun ⟨horigin, ho⟩ => ⟨horigin, (honce ho).1⟩))
  · intro horigin hr ho
    exact (hnew hr ho).typed h.linked (h.typed horigin (hreplaced hr).1 (honce ho).1)
  · intro horigin hr ho
    have horigin : l.origin = .empty := horigin
    have htyped := h.typed (by simp [horigin]) (hreplaced hr).1 (honce ho).1
    exact (hnew hr ho).singleOutput h.linked htyped
      (h.output horigin (hreplaced hr).1 (honce ho).1)
  · intro hfew
    have hfew := hmove.few hfew
    have hfresh := (hsound hfew).contains_fresh h.known
    simp only [LiveGraph.edit, Bool.or_eq_false_iff, List.any_eq_false]
    refine ⟨h.once hfew, fun id hid => ?_⟩
    rw [Graph.eq_fresh_of_mem_taken hid, hfresh]
    exact Bool.false_ne_true

/-- **One action.** -/
theorem keeps_perform (hsound : p.ids.Few → p.ids.Sound) (hp : ∀ l ∈ p.graphs, p.Keeps l)
    (a : Action) : ∀ l ∈ (p.perform a).graphs, (p.perform a).Keeps l := by
  intro l hmem
  have hmove := p.move_perform a
  cases p.arises_perform a hmem with
  | stays hl => exact (hp l hl).mono hmove
  | empty => exact keeps_empty _ _
  | @loaded source g hg hids =>
    exact ⟨(Graph.linked_of_load hg).1, fun n hn => List.mem_append_right _ (hids n hn), by simp,
      by simp, by simp, by simp⟩
  | @converted c root hids =>
    cases hnode : (Conversion.convert c root p.ids.counter).1.root with
    | none => exact keeps_empty _ _
    | some node =>
      refine keeps_converted hnode (by simpa [hnode] using hids) fun hfew => ?_
      exact hmove.sound (hsound (hmove.few hfew)) hfew
  | @edited m e hm hpossible hids => exact keeps_edited hsound hmove (hp m hm) hpossible hids

/-- **A whole run.** -/
theorem keeps_runFrom (actions : List Action) (hsound : p.ids.Few → p.ids.Sound)
    (hp : ∀ l ∈ p.graphs, p.Keeps l) :
    ∀ l ∈ (p.runFrom actions).graphs, (p.runFrom actions).Keeps l := by
  induction actions generalizing p with
  | nil => exact hp
  | cons a actions ih =>
    refine ih (fun hfew => ?_) (keeps_perform hsound hp a)
    have hmove := p.move_perform a
    exact hmove.sound (hsound (hmove.few hfew)) hfew

theorem keeps_run (actions : List Action) :
    ∀ l ∈ (run actions).graphs, (run actions).Keeps l :=
  keeps_runFrom actions (fun _ => Ledger.sound_empty) (by simp)

/-- **Graphs stay sound.** Take any run of a process and any of its graphs. Its nodes have distinct
ids, under each id stands a node with that id whose instance, if any, has it too, and edges lead from
nodes to nodes. If it was not loaded, no node has two edges into it. If moreover no insertion met an
id that the graph had, every edge comes from a node field of an instance, and if the graph began
empty, no field that is first declared for a single node has two edges.

The last three are about graphs where no new node got an id that was taken. There are no others in a
run that hands out fewer than `2 ^ 63` ids. -/
theorem graphs_run (actions : List Action) {l : LiveGraph} (hl : l ∈ (run actions).graphs) :
    ((l.graph.nodes.map (·.id)).Nodup ∧
      (∀ id n, l.graph.node? id = some n → n.id = id ∧ ∀ i, n.state = some i → i.id = id) ∧
      ∀ e ∈ l.graph.edges,
        l.graph.contains e.source = true ∧ l.graph.contains e.target = true) ∧
    (l.origin = .empty ∨ l.origin = .converted ∧ l.reissued = false →
      (l.graph.edges.map (·.target)).Nodup) ∧
    (l.origin ≠ .loaded → l.replaced = false → l.reissued = false →
      ∀ e ∈ l.graph.edges,
        ∃ i, l.graph.state? e.source = some i ∧ i.hasNodeField e.field = true) ∧
    (l.origin = .empty → l.replaced = false → l.reissued = false →
      ∀ source field i, l.graph.state? source = some i →
        i.nodeFieldKind? field = some .singleNode →
        (Edge.targetsFrom l.graph.edges source field).length ≤ 1) ∧
    ((run actions).ids.issued.length < 2 ^ 63 → l.reissued = false) := by
  have hkeeps := keeps_run actions l hl
  refine ⟨⟨hkeeps.linked.ids, fun id n hn => hkeeps.linked.id_of_node? hn, hkeeps.linked.ends⟩,
    ?_, ?_, ?_, ?_⟩
  · exact hkeeps.input
  · exact hkeeps.typed
  · exact hkeeps.output
  · exact hkeeps.once

/-- A template with a field for a single node. -/
def pair : Template where
  name := "Pair"
  fields := [.ofSpec { name := "Left", declaredType := "ExpressionSyntax" },
    .ofSpec { name := "Sign", declaredType := "SyntaxToken" }]

/-- A graph is built up from nothing. Its one edge gives way to another, and the last edit fails. -/
def pairing : List Action :=
  [.newGraph, .edit 0 (.addNode pair), .edit 0 (.addNode pair), .edit 0 .addPlaceholder,
    .edit 0 (.connect ⟨1⟩ "Left" ⟨2⟩), .edit 0 (.setValue ⟨1⟩ "Sign" (some "+")),
    .edit 0 (.connect ⟨1⟩ "Left" ⟨3⟩), .edit 0 (.connect ⟨3⟩ "Left" ⟨2⟩)]

theorem graphs_pairing :
    ∃ l, l ∈ (run pairing).graphs ∧ l.origin = .empty ∧ l.replaced = false ∧
      (run pairing).ids.issued.length < 2 ^ 63 ∧ l.graph.edges = [⟨⟨1⟩, "Left", ⟨3⟩⟩] ∧
      (l.graph.edges.map (·.target)).Nodup ∧
      (∀ e ∈ l.graph.edges,
        ∃ i, l.graph.state? e.source = some i ∧ i.hasNodeField e.field = true) ∧
      ∃ i, l.graph.state? ⟨1⟩ = some i ∧ i.nodeFieldKind? "Left" = some .singleNode ∧
        (Edge.targetsFrom l.graph.edges ⟨1⟩ "Left").length ≤ 1 := by
  obtain ⟨l, i, hgraphs, horigin, hreplaced, hedges, hi, hkind⟩ :
      ∃ l i, (run pairing).graphs = [l] ∧ l.origin = .empty ∧ l.replaced = false ∧
        l.graph.edges = [⟨⟨1⟩, "Left", ⟨3⟩⟩] ∧ l.graph.state? ⟨1⟩ = some i ∧
        i.nodeFieldKind? "Left" = some .singleNode :=
    ⟨_, _, rfl, rfl, rfl, rfl, rfl, rfl⟩
  have hl : l ∈ (run pairing).graphs := by simp [hgraphs]
  have hfew : (run pairing).ids.issued.length < 2 ^ 63 := by decide
  obtain ⟨-, hinput, htyped, houtput, honce⟩ := graphs_run pairing hl
  exact ⟨l, hl, horigin, hreplaced, hfew, hedges, hinput (.inl horigin),
    htyped (by simp [horigin]) hreplaced (honce hfew), i, hi, hkind,
    houtput horigin hreplaced (honce hfew) _ _ i hi hkind⟩

end Process

end SyntaxGraph
