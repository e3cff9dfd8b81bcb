import SyntaxGraph.Proofs.Process.Graphs

/-!
# Ids are handed out once

A process that hands out fewer than `2 ^ 63` ids never hands out one twice, nor one that it reserved
or loaded before. Its counter stands above every id in its graphs, wherever in a graph the id stands:
at a node, at an instance or at an end of an edge. So a new node always comes under an id that the
graph does not have.
-/

namespace SyntaxGraph

namespace Graph

/-- The ids in a graph: of its nodes, of their instances and at the ends of its edges. -/
def heldIds (g : Graph) : List InstanceId :=
  g.nodes.map (·.id) ++ (g.nodes.filterMap (·.state)).map (·.id) ++
    g.edges.flatMap fun e => [e.source, e.target]

theorem Linked.mem_ids {g : Graph} (h : g.Linked) {id : InstanceId} (hid : id ∈ g.heldIds) :
    id ∈ g.nodes.map (·.id) := by
  simp only [heldIds, List.mem_append, List.mem_flatMap] at hid
  rcases hid with (hid | hid) | ⟨e, he, hid⟩
  · exact hid
  · obtain ⟨i, hi, rfl⟩ := List.mem_map.1 hid
    obtain ⟨n, hn, hstate⟩ := List.mem_filterMap.1 hi
    rw [h.states n hn i hstate]
    exact List.mem_map_of_mem hn
  · obtain ⟨hsource, htarget⟩ := h.ends e he
    simp only [List.mem_cons, List.not_mem_nil, or_false] at hid
    rcases hid with rfl | rfl
    · exact contains_iff.1 hsource
    · exact contains_iff.1 htarget

/-- An addition to a graph puts one node behind the others, under an id that the graph does not have,
and does nothing else. -/
structure Grows (g : Graph) (added : InstanceId × Graph × Counter) : Prop where
  new : g.contains added.1 = false
  nodes : ∃ state, added.2.1.nodes = g.nodes ++ [⟨added.1, state⟩]
  edges : added.2.1.edges = g.edges
  size : added.2.1.size = g.size + 1

theorem grows_put {g : Graph} {id : InstanceId} (h : g.contains id = false)
    (state : Option Instance) (counter : Counter) :
    g.Grows (id, { g with nodes := putNode ⟨id, state⟩ g.nodes }, counter) := by
  have hnodes : putNode ⟨id, state⟩ g.nodes = g.nodes ++ [⟨id, state⟩] :=
    putNode_new (contains_eq_false_iff.1 h)
  refine ⟨h, ⟨state, hnodes⟩, rfl, ?_⟩
  simp [size, hnodes]

variable {g : Graph} {counter : Counter}

theorem grows_addNode (h : g.contains counter.fresh.1 = false) (t : Template) :
    g.Grows (g.addNode t counter) :=
  grows_put h (some (Instance.stamp t counter).1) counter.fresh.2

theorem grows_addPlaceholder (h : g.contains counter.fresh.1 = false) :
    g.Grows (g.addPlaceholder counter) :=
  grows_put h none counter.fresh.2

end Graph

namespace Process

/-- **No id comes twice.** Take a run of a process that hands out fewer than `2 ^ 63` ids. These are
pairwise distinct, and none of them had been reserved or loaded when it was handed out. The counter
stands above every id in a graph. So adding an instance of a template, given or found by its name, or
a node without an instance, puts one new node behind the others and leaves these and the edges as they
are. -/
theorem issued_run (actions : List Action) (hfew : (run actions).ids.issued.length < 2 ^ 63) :
    (run actions).ids.issued.Nodup ∧
    (∀ before after, actions = before ++ after →
      ∃ later, (run actions).ids.issued = (run before).ids.issued ++ later ∧
        ∀ id ∈ (run before).ids.outside, id ∉ later) ∧
    ∀ l ∈ (run actions).graphs,
      (∀ id ∈ l.graph.heldIds, id.number.toNat < (run actions).ids.counter.next.toNat) ∧
      (∀ t, l.graph.Grows (l.graph.addNode t (run actions).ids.counter)) ∧
      (∀ (c : Schema.Catalog) name t, c.template? name = some t →
        ∃ added, l.graph.addNamed c name (run actions).ids.counter = .ok added ∧
          l.graph.Grows added) ∧
      l.graph.Grows (l.graph.addPlaceholder (run actions).ids.counter) := by
  have hsound := sound_runFrom actions Ledger.sound_empty hfew
  refine ⟨hsound.nodup, ?_, ?_⟩
  · rintro before after rfl
    rw [run_append] at hfew ⊢
    have hbefore := sound_runFrom before Ledger.sound_empty (few_of_runFrom after hfew)
    obtain ⟨later, hlater, habove⟩ := issued_runFrom after hbefore hfew
    refine ⟨later, hlater, fun id hid hmem => ?_⟩
    -- what came from outside lies below the counter of that time, what comes later does not
    have hlt := hbefore.known_lt id (List.mem_append_right _ hid)
    exact Nat.not_lt.2 (habove id hmem) hlt
  · intro l hl
    have hkeeps := keeps_run actions l hl
    have hfresh := hsound.contains_fresh hkeeps.known
    refine ⟨fun id hid => ?_, Graph.grows_addNode hfresh, fun c name t ht => ?_,
      Graph.grows_addPlaceholder hfresh⟩
    · obtain ⟨n, hn, rfl⟩ := List.mem_map.1 (hkeeps.linked.mem_ids hid)
      exact hsound.known_lt n.id (hkeeps.known n hn)
    · refine ⟨l.graph.addNode t (run actions).ids.counter, ?_, Graph.grows_addNode hfresh t⟩
      simp only [Graph.addNamed, ht]

/-- Ids come from everywhere: stamped, reserved up to the last that may be, loaded, even by a load
that fails, and handed out to new nodes in between. -/
def mixing : List Action :=
  [.stamp pair, .reserve ⟨9⟩, .newGraph, .edit 0 (.addNode pair),
    .loadGraph "\x7b\"nodes\":[\x7b\"id\":20,\"instance\":null\x7d],\"edges\":[]\x7d",
    .edit 1 .addPlaceholder,
    .loadGraph "\x7b\"nodes\":[\x7b\"id\":40\x7d,\x7b\"id\":40\x7d],\"edges\":[]\x7d",
    .edit 0 .addPlaceholder, .reserve ⟨9223372036854775807⟩, .edit 1 (.addNode pair)]

theorem issued_mixing :
    (run mixing).ids.issued = [⟨1⟩, ⟨10⟩, ⟨21⟩, ⟨41⟩, ⟨9223372036854775808⟩] ∧
      (run mixing).ids.issued.length < 2 ^ 63 ∧ (run mixing).ids.issued.Nodup ∧
      ∃ l, l ∈ (run mixing).graphs ∧ l.origin = .loaded ∧
        l.graph.heldIds = [⟨20⟩, ⟨21⟩, ⟨9223372036854775808⟩, ⟨9223372036854775808⟩] ∧
        (∀ id ∈ l.graph.heldIds, id.number.toNat < (run mixing).ids.counter.next.toNat) ∧
        l.graph.Grows (l.graph.addPlaceholder (run mixing).ids.counter) := by
  have hissued : (run mixing).ids.issued = [⟨1⟩, ⟨10⟩, ⟨21⟩, ⟨41⟩, ⟨9223372036854775808⟩] := by
    decide +kernel
  have hfew : (run mixing).ids.issued.length < 2 ^ 63 := by
    rw [hissued]
    decide
  have hgraph : ((run mixing).graphs[1]?.map fun l => (l.origin, l.graph.heldIds)) =
      some (.loaded, [⟨20⟩, ⟨21⟩, ⟨9223372036854775808⟩, ⟨9223372036854775808⟩]) := by
    decide +kernel
  obtain ⟨l, hget, hl⟩ := Option.map_eq_some_iff.1 hgraph
  obtain ⟨horigin, hheld⟩ := Prod.mk.inj hl
  have hmem := List.mem_of_getElem? hget
  obtain ⟨hnodup, -, hgraphs⟩ := issued_run mixing hfew
  obtain ⟨habove, -, -, hplaceholder⟩ := hgraphs l hmem
  exact ⟨hissued, hfew, hnodup, l, hmem, horigin, hheld, habove, hplaceholder⟩

end Process

end SyntaxGraph
