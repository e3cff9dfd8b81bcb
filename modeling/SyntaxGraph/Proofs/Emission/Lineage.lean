import SyntaxGraph.Proofs.Emission.Ending
import SyntaxGraph.Proofs.Emission.OfConverted
import SyntaxGraph.Proofs.Graph.Lineage
import SyntaxGraph.Proofs.Process.Graphs
import SyntaxGraph.Synchronizer

/-!
# Emission below the roots

When emission starts from the roots of a graph, the active nodes are the lineage of the node that is
worked on: every piece of pending work stands below the nodes that are left after it, each of them a
child of the next one and the last a root. This is kept by every step, whatever the graph.

If at most one edge leads to a node, a node is never its own ancestor, so no node is cut; and the
nodes on cycles and below them, which have no lineage, are never worked on. The main statement says
this, and that without these nodes the text of the graph is the same.
-/

namespace SyntaxGraph.Emission

/-! ### Pending work and lineages -/

/-- The node that a piece of work belongs to. -/
def Work.owner? : Work → Option InstanceId
  | .node id => some id
  | .unit owner _ => some owner
  | .text _ => none
  | .leave id => some id

/-- The piece of work stands below the nodes of `path`: a node that is still to be entered or left
has them as its lineage, and a unit belongs to the first of them. -/
def Work.StandsBelow (g : Graph) (path : List InstanceId) : Work → Prop
  | .node id => g.Lineage id path
  | .unit owner _ => ∃ above, path = owner :: above ∧ g.Lineage owner above
  | .text _ => True
  | .leave id => g.Lineage id path

/-- Every piece of pending work stands below the nodes that are left after it. -/
def Placed (g : Graph) : List Work → Prop
  | [] => True
  | w :: rest => w.StandsBelow g (leaving rest) ∧ Placed g rest

section Placed

variable {g : Graph} {ws rest : List Work}

theorem Work.StandsBelow.exists_lineage {w : Work} {path : List InstanceId} {id : InstanceId}
    (h : w.StandsBelow g path) (hid : w.owner? = some id) : ∃ above, g.Lineage id above := by
  cases w with
  | node k =>
    obtain rfl := Option.some.inj hid
    exact ⟨path, h⟩
  | unit owner u =>
    obtain rfl := Option.some.inj hid
    obtain ⟨above, -, habove⟩ := h
    exact ⟨above, habove⟩
  | text s => simp [Work.owner?] at hid
  | leave k =>
    obtain rfl := Option.some.inj hid
    exact ⟨path, h⟩

/-- A node that some pending work belongs to has a lineage. -/
theorem Placed.exists_lineage (h : Placed g ws) {w : Work} (hw : w ∈ ws) {id : InstanceId}
    (hid : w.owner? = some id) : ∃ path, g.Lineage id path := by
  induction ws with
  | nil => simp at hw
  | cons v ws ih =>
    rcases List.mem_cons.1 hw with rfl | hw
    · exact h.1.exists_lineage hid
    · exact ih h.2 hw

theorem placed_append (hplain : ∀ w ∈ ws, w.isPlain = true)
    (hws : ∀ w ∈ ws, w.StandsBelow g (leaving rest)) (hrest : Placed g rest) :
    Placed g (ws ++ rest) := by
  induction ws with
  | nil => exact hrest
  | cons w ws ih =>
    have hplain' : ∀ v ∈ ws, v.isPlain = true := fun v hv => hplain v (List.mem_cons_of_mem w hv)
    have hw : w.StandsBelow g (leaving (ws ++ rest)) := by
      rw [leaving_append hplain']
      exact hws w List.mem_cons_self
    exact ⟨hw, ih hplain' fun v hv => hws v (List.mem_cons_of_mem w hv)⟩

theorem placed_start (g : Graph) : Placed g (g.roots.map .node) := by
  rw [← List.append_nil (g.roots.map Work.node)]
  refine placed_append (by simp [Work.isPlain]) (fun w hw => ?_) trivial
  obtain ⟨id, hid, rfl⟩ := List.mem_map.1 hw
  exact .root hid

/-! ### One step -/

theorem mem_children_of_mem_childWork {kind : FieldKind} {children : List InstanceId}
    {id : InstanceId} (h : .node id ∈ childWork kind children) : id ∈ children := by
  cases children with
  | nil => simp [childWork] at h
  | cons first later =>
    simp only [childWork, List.mem_cons, Work.node.injEq, List.mem_flatMap] at h
    rcases h with rfl | ⟨k, hk, h⟩
    · exact List.mem_cons_self
    · obtain rfl : id = k := by
        unfold laterChild at h
        split at h <;> simpa using h
      exact List.mem_cons_of_mem first hk

/-- The work of a unit stands below its owner. -/
theorem standsBelow_of_mem_unitWork {owner : InstanceId} {above : List InstanceId} {u : FieldUnit}
    (howner : g.Lineage owner above) {w : Work} (hw : w ∈ unitWork (.build g.edges) owner u) :
    w.StandsBelow g (owner :: above) := by
  cases u with
  | single f v =>
    simp only [unitWork] at hw
    split at hw
    · rcases eq_of_mem_childWork hw with rfl | ⟨id, rfl⟩
      · trivial
      · have hchild := mem_children_of_mem_childWork hw
        obtain ⟨-, he⟩ := EdgeIndex.mem_children_build.1 hchild
        exact .child howner (Graph.leads_of_mem he)
    · simp at hw
  | choice n o cs i =>
    simp only [unitWork] at hw
    split at hw
    · obtain rfl := List.mem_singleton.1 hw
      exact ⟨above, rfl, howner⟩
    · simp at hw
  | sequence cs =>
    obtain ⟨u, -, rfl⟩ := List.mem_map.1 hw
    exact ⟨above, rfl, howner⟩

/-- **One step.** The work that takes the place of another stands where that one stood, or below the
node that is entered. -/
theorem Placed.step {store : Store} {m n : Machine} (h : step store (.build g.edges) m = some n)
    (hm : Placed g m.stack) : Placed g n.stack := by
  obtain ⟨out, active, stack⟩ := m
  cases stack with
  | nil => simp [Emission.step] at h
  | cons w rest =>
    obtain ⟨hw, hrest⟩ := hm
    cases w with
    | node id =>
      by_cases ha : id ∈ active
      · simp only [Emission.step, ha, if_true, Option.some.injEq] at h
        subst h
        exact hrest
      · cases hs : store.state? id with
        | none =>
          simp only [Emission.step, ha, if_false, hs, Option.some.injEq] at h
          subst h
          exact hrest
        | some i =>
          simp only [Emission.step, ha, if_false, hs, Option.some.injEq] at h
          subst h
          refine placed_append (by simp [Work.isPlain]) (fun v hv => ?_) ⟨hw, hrest⟩
          obtain ⟨u, -, rfl⟩ := List.mem_map.1 hv
          exact ⟨leaving rest, rfl, hw⟩
    | unit owner u =>
      simp only [Emission.step, Option.some.injEq] at h
      subst h
      obtain ⟨above, hpath, howner⟩ := hw
      refine placed_append (fun v hv => isPlain_of_mem_unitWork hv) (fun v hv => ?_) hrest
      rw [hpath]
      exact standsBelow_of_mem_unitWork howner hv
    | text s =>
      simp only [Emission.step, Option.some.injEq] at h
      subst h
      exact hrest
    | leave id =>
      simp only [Emission.step, Option.some.injEq] at h
      subst h
      exact hrest

/-- **A whole run.** -/
theorem Placed.after {store : Store} {k : Nat} {m n : Machine}
    (h : after store (.build g.edges) k m = some n) (hm : Placed g m.stack) : Placed g n.stack :=
  after_induction (P := fun m => Placed g m.stack) (fun hstep hm => hm.step hstep) h hm

end Placed

/-! ### Nodes without a lineage -/

section Restrict

variable {g : Graph} {keep : InstanceId → Bool}

/-- A node that is kept with everything below it writes the same. By induction on what can still be
entered. -/
theorem nodeText_restrict (hkeep : ∀ id path, g.Lineage id path → keep id = true)
    {id : InstanceId} {path : List InstanceId} (hid : g.Lineage id path) :
    nodeText (.ofGraph (g.restrict keep)) (.build (g.restrict keep).edges) path id =
      nodeText (.ofGraph g) (.build g.edges) path id := by
  by_cases ha : id ∈ path
  · rw [nodeText_of_mem ha, nodeText_of_mem ha]
  · have hstate := Graph.state?_ofGraph_restrict (g := g) (hkeep id path hid)
    cases hs : (Store.ofGraph g).state? id with
    | none => rw [nodeText_of_none hs, nodeText_of_none (hstate.trans hs)]
    | some i =>
      have := Store.dormant_cons_lt hs ha
      have hchildren := Graph.children_build_restrict (hkeep id path hid)
        fun b hb => hkeep b _ (.child hid hb)
      rw [nodeText_of_some ha hs, nodeText_of_some ha (hstate.trans hs)]
      congr 3
      funext f
      rw [fieldText, fieldText, hchildren]
      congr 1
      refine List.map_congr_left fun child hchild => ?_
      obtain ⟨-, he⟩ := EdgeIndex.mem_children_build.1 hchild
      exact nodeText_restrict hkeep (.child hid (Graph.leads_of_mem he))
termination_by (Store.ofGraph g).dormant path

/-- Leaving out nodes without a lineage, with everything below them, does not change the text. -/
theorem emit_restrict (hkeep : ∀ id path, g.Lineage id path → keep id = true)
    (hclosed : ∀ a b, g.Leads a b → keep a = false → keep b = false) :
    (g.restrict keep).emit = g.emit := by
  have hroots := Graph.roots_restrict (fun id hid => hkeep id [] (.root hid)) hclosed
  rw [emit_eq_join, emit_eq_join, hroots]
  congr 1
  exact List.map_congr_left fun id hid => nodeText_restrict hkeep (.root hid)

end Restrict

/-- **No cycle is reached from the roots.** Take a graph in which at most one edge leads to a node.
At every moment of its emission the node to enter is not active, so that none is cut as its own
ancestor, and no pending work belongs to a node on a cycle or below one. These nodes contribute
nothing: the graph without them has the same text.

Such are all graphs of a process that began empty, and those that began with a conversion as long as
the process hands out fewer than `2 ^ 63` ids. -/
theorem emission_of_singleInput :
    (∀ g : Graph, g.SingleInput →
      (∀ k m, after (.ofGraph g) (.build g.edges) k ⟨"", [], g.roots.map .node⟩ = some m →
        (∀ id rest, m.stack = .node id :: rest → id ∉ m.active) ∧
        ∀ w ∈ m.stack, ∀ id, w.owner? = some id → ¬g.UnderCycle id) ∧
      ∀ keep : InstanceId → Bool, (∀ id, keep id = false ↔ g.UnderCycle id) →
        ∀ s : Synchronizer, s.toCode (g.restrict keep) = s.toCode g) ∧
    ∀ actions, ∀ l ∈ (Process.run actions).graphs,
      l.origin = .empty ∨
        l.origin = .converted ∧ (Process.run actions).ids.issued.length < 2 ^ 63 →
      l.graph.SingleInput := by
  refine ⟨fun g hg => ⟨fun k m hm => ?_, fun keep hkeep s => ?_⟩, fun actions l hl horigin => ?_⟩
  · have hplaced := (placed_start g).after hm
    refine ⟨fun id rest hstack => ?_, fun w hw id hid => ?_⟩
    · have hactive := ((balanced_start g.roots).after hm).active
      rw [hstack] at hactive hplaced
      rw [hactive]
      exact hplaced.1.notMem hg
    · obtain ⟨path, hpath⟩ := hplaced.exists_lineage hw hid
      exact hpath.not_underCycle hg
  · have htext : (g.restrict keep).emit = g.emit := by
      refine emit_restrict (fun id path hpath => ?_) fun a b hab ha => ?_
      · rw [← Bool.not_eq_false, hkeep]
        exact hpath.not_underCycle hg
      · exact (hkeep b).2 (((hkeep a).1 ha).of_leads hab)
    rw [Synchronizer.toCode, Synchronizer.toCode, htext]
  · have hkeeps := Process.keeps_run actions l hl
    exact hkeeps.input (horigin.imp_right fun ⟨horigin, hfew⟩ => ⟨horigin, hkeeps.once hfew⟩)

/-! ### A graph with a cycle -/

/-- A field for a single node. -/
def nextLink : FieldSpec where
  name := "Next"
  declaredType := "LinkSyntax"

/-- A template with a field for a single node, one for any number of nodes, and a token. -/
def chainLink : Template where
  name := "Link"
  fields := [.ofSpec nextLink,
    .ofSpec { name := "Side", declaredType := "SyntaxList<LinkSyntax>" },
    .ofSpec { name := "Mark", declaredType := "SyntaxToken" }]

/-- Two links in a row, and beside them one that comes after itself, with another at its side. -/
def ringEdits : List Process.Action :=
  [.newGraph, .edit 0 (.addNode chainLink), .edit 0 (.addNode chainLink),
    .edit 0 (.addNode chainLink), .edit 0 (.addNode chainLink),
    .edit 0 (.connect ⟨1⟩ "Next" ⟨2⟩), .edit 0 (.connect ⟨3⟩ "Next" ⟨3⟩),
    .edit 0 (.connect ⟨3⟩ "Side" ⟨4⟩), .edit 0 (.setValue ⟨2⟩ "Mark" (some "a")),
    .edit 0 (.setValue ⟨4⟩ "Mark" (some "b"))]

/-- The graph that these edits make. -/
def ring : Graph where
  nodes := [1, 2, 3, 4].map fun n => ⟨⟨n⟩, some ⟨⟨n⟩, chainLink,
    if n = 2 then Units.withValue "Mark" (some "a") chainLink.fields
    else if n = 4 then Units.withValue "Mark" (some "b") chainLink.fields
    else chainLink.fields⟩⟩
  edges := [⟨⟨1⟩, "Next", ⟨2⟩⟩, ⟨⟨3⟩, "Next", ⟨3⟩⟩, ⟨⟨3⟩, "Side", ⟨4⟩⟩]

theorem leads_ring_iff {a b : InstanceId} :
    ring.Leads a b ↔ a = ⟨1⟩ ∧ b = ⟨2⟩ ∨ a = ⟨3⟩ ∧ (b = ⟨3⟩ ∨ b = ⟨4⟩) := by
  simp only [Graph.Leads, ring, List.mem_cons, List.not_mem_nil, or_false, exists_eq_or_imp,
    exists_eq_left]
  grind

theorem underCycle_ring_iff {id : InstanceId} :
    ring.UnderCycle id ↔ id = ⟨3⟩ ∨ id = ⟨4⟩ := by
  constructor
  · rintro ⟨c, hcycle, hbelow⟩
    -- a node on a cycle has an edge from it and one to it
    obtain ⟨a, hfirst, -⟩ := Relation.TransGen.head'_iff.1 hcycle
    obtain ⟨b, -, hlast⟩ := Relation.TransGen.tail'_iff.1 hcycle
    obtain rfl : c = ⟨3⟩ := by
      rw [leads_ring_iff] at hfirst hlast
      grind
    induction hbelow with
    | refl => exact .inl rfl
    | tail _ hstep ih =>
      rw [leads_ring_iff] at hstep
      grind
  · have hself : ring.Leads ⟨3⟩ ⟨3⟩ := leads_ring_iff.2 (by decide)
    have hside : ring.Leads ⟨3⟩ ⟨4⟩ := leads_ring_iff.2 (by decide)
    rintro (rfl | rfl)
    · exact ⟨⟨3⟩, .single hself, .refl⟩
    · exact ⟨⟨3⟩, .single hself, .single hside⟩

/-- Emission enters the second link inside the first one, and the text is that of these two alone.
-/
theorem emission_ring :
    ring.SingleInput ∧
      (∃ m rest, after (.ofGraph ring) (.build ring.edges) 2 ⟨"", [], ring.roots.map .node⟩ =
          some m ∧ m.stack = .node ⟨2⟩ :: rest ∧ m.active = [⟨1⟩] ∧ ⟨2⟩ ∉ m.active) ∧
      ring.UnderCycle ⟨3⟩ ∧ ring.UnderCycle ⟨4⟩ ∧
      ∀ s : Synchronizer,
        s.toCode (ring.restrict fun id => id != ⟨3⟩ && id != ⟨4⟩) = s.toCode ring := by
  obtain ⟨l, hgraphs, horigin, hgraph⟩ :
      ∃ l, (Process.run ringEdits).graphs = [l] ∧ l.origin = .empty ∧ l.graph = ring :=
    ⟨_, rfl, rfl, rfl⟩
  have hl : l ∈ (Process.run ringEdits).graphs := by simp [hgraphs]
  have hring : ring.SingleInput := by
    rw [← hgraph]
    exact emission_of_singleInput.2 ringEdits l hl (.inl horigin)
  obtain ⟨hsteps, htext⟩ := emission_of_singleInput.1 ring hring
  obtain ⟨rest, hentered⟩ : ∃ rest, step (.ofGraph ring) (.build ring.edges)
      ⟨"", [], ring.roots.map .node⟩ = some ⟨"", [⟨1⟩], .unit ⟨1⟩ (.ofSpec nextLink) :: rest⟩ :=
    ⟨_, rfl⟩
  have hwork : unitWork (.build ring.edges) ⟨1⟩ (.ofSpec nextLink) = [.node ⟨2⟩] := by
    have hkind : nextLink.kind = .singleNode := by decide
    have hchildren : (EdgeIndex.build ring.edges).children ⟨1⟩ "Next" = [⟨2⟩] := by
      rw [EdgeIndex.children_build]
      decide
    simp only [FieldUnit.ofSpec, unitWork, hkind]
    simp only [nextLink, hchildren]
    rfl
  have hm : after (.ofGraph ring) (.build ring.edges) 2 ⟨"", [], ring.roots.map .node⟩ =
      some ⟨"" ++ unitText (.ofSpec nextLink), [⟨1⟩], .node ⟨2⟩ :: rest⟩ := by
    rw [after, hentered, Option.bind_some, after]
    simp only [step, hwork]
    rfl
  have hkeep : ∀ id : InstanceId, (id != ⟨3⟩ && id != ⟨4⟩) = false ↔ ring.UnderCycle id := by
    intro id
    rw [underCycle_ring_iff, Bool.and_eq_false_iff, bne_eq_false_iff_eq, bne_eq_false_iff_eq]
  exact ⟨hring, ⟨_, rest, hm, rfl, rfl, (hsteps 2 _ hm).1 ⟨2⟩ rest rfl⟩,
    underCycle_ring_iff.2 (.inl rfl), underCycle_ring_iff.2 (.inr rfl), htext _ hkeep⟩

end SyntaxGraph.Emission
