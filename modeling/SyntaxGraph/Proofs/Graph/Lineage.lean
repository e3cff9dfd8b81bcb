import Mathlib.Logic.Relation
import SyntaxGraph.Proofs.Graph.Connecting

/-!
# Lineages

The lineage of a node is a path of edges from a root down to it. Where at most one edge leads to a
node, a node has at most one lineage, because the edges can only be followed back in one way. So a
node on a cycle has none, for following the cycle back would make its lineage shorter and yet lead
to the node again; and neither has a node below a cycle.
-/

namespace SyntaxGraph.Graph

/-- An edge leads from the first node to the second. -/
def Leads (g : Graph) (a b : InstanceId) : Prop :=
  ∃ e ∈ g.edges, e.source = a ∧ e.target = b

/-- The node has a lineage: the nodes above it, its parent first and a root last. -/
inductive Lineage (g : Graph) : InstanceId → List InstanceId → Prop where
  | root {id : InstanceId} (h : id ∈ g.roots) : Lineage g id []
  | child {a id : InstanceId} {above : List InstanceId} (ha : Lineage g a above)
    (h : g.Leads a id) : Lineage g id (a :: above)

/-- The node lies on a cycle or below one. -/
def UnderCycle (g : Graph) (id : InstanceId) : Prop :=
  ∃ c, Relation.TransGen g.Leads c c ∧ Relation.ReflTransGen g.Leads c id

theorem UnderCycle.of_leads {g : Graph} {a b : InstanceId} (ha : g.UnderCycle a)
    (h : g.Leads a b) : g.UnderCycle b := by
  obtain ⟨c, hcycle, hbelow⟩ := ha
  exact ⟨c, hcycle, hbelow.tail h⟩

section SingleInput

variable {g : Graph} {a b id : InstanceId} {path above : List InstanceId}

theorem SingleInput.leads_unique (hg : g.SingleInput) (ha : g.Leads a id) (hb : g.Leads b id) :
    a = b := by
  obtain ⟨e, he, rfl, hid⟩ := ha
  obtain ⟨f, hf, rfl, hid'⟩ := hb
  have hef : e = f := List.inj_on_of_nodup_map hg he hf (hid.trans hid'.symm)
  rw [hef]

theorem not_leads_of_mem_roots (h : id ∈ g.roots) : ¬g.Leads a id := by
  rintro ⟨e, he, -, htarget⟩
  exact (mem_roots_iff.1 h).2 e he htarget

/-- Following an edge back goes one step up the lineage. -/
theorem Lineage.of_leads (hg : g.SingleInput) (hid : g.Lineage id path) (h : g.Leads a id) :
    ∃ above, path = a :: above ∧ g.Lineage a above := by
  cases hid with
  | root hroot => exact absurd h (not_leads_of_mem_roots hroot)
  | @child b _ above hb hlast =>
    obtain rfl := hg.leads_unique h hlast
    exact ⟨above, rfl, hb⟩

theorem Lineage.unique (hg : g.SingleInput) (hpath : g.Lineage id path)
    (habove : g.Lineage id above) : path = above := by
  induction hpath generalizing above with
  | root hroot =>
    cases habove with
    | root => rfl
    | child _ hlast => exact absurd hlast (not_leads_of_mem_roots hroot)
  | child _ hlast ih =>
    obtain ⟨rest, rfl, hrest⟩ := habove.of_leads hg hlast
    rw [ih hrest]

/-- Following edges back goes up the lineage. -/
theorem Lineage.of_path (hg : g.SingleInput) (h : Relation.ReflTransGen g.Leads a id)
    (hid : g.Lineage id path) : ∃ above, g.Lineage a above ∧ above.length ≤ path.length := by
  induction h generalizing path with
  | refl => exact ⟨path, hid, Nat.le_refl _⟩
  | tail _ hlast ih =>
    obtain ⟨rest, rfl, hrest⟩ := hid.of_leads hg hlast
    obtain ⟨above, habove, hle⟩ := ih hrest
    exact ⟨above, habove, Nat.le_succ_of_le hle⟩

/-- A node with a lineage lies on no cycle and below none. -/
theorem Lineage.not_underCycle (hg : g.SingleInput) (hid : g.Lineage id path) :
    ¬g.UnderCycle id := by
  rintro ⟨c, hcycle, hbelow⟩
  obtain ⟨above, habove, -⟩ := hid.of_path hg hbelow
  -- once around the cycle the lineage of `c` is shorter
  obtain ⟨b, hround, hlast⟩ := Relation.TransGen.tail'_iff.1 hcycle
  obtain ⟨rest, rfl, hrest⟩ := habove.of_leads hg hlast
  obtain ⟨again, hagain, hle⟩ := hrest.of_path hg hround
  have hsame := congrArg List.length (habove.unique hg hagain)
  rw [List.length_cons] at hsame
  omega

/-- No node stands above itself. -/
theorem Lineage.notMem (hg : g.SingleInput) (hid : g.Lineage id path) : id ∉ path := by
  intro hmem
  -- a node of a lineage leads down to its end
  have hdown : ∀ {b path}, g.Lineage b path → ∀ a ∈ path, Relation.TransGen g.Leads a b := by
    intro b path hb
    induction hb with
    | root => exact fun a ha => absurd ha List.not_mem_nil
    | child _ hlast ih =>
      intro a ha
      rcases List.mem_cons.1 ha with rfl | ha
      · exact .single hlast
      · exact (ih a ha).tail hlast
  exact hid.not_underCycle hg ⟨id, hdown hid id hmem, .refl⟩

end SingleInput

/-! ### A part of a graph -/

/-- The graph of the nodes to keep, with the edges between them. -/
def restrict (g : Graph) (keep : InstanceId → Bool) : Graph where
  nodes := g.nodes.filter fun n => keep n.id
  edges := g.edges.filter fun e => keep e.source && keep e.target

section Restrict

variable {g : Graph} {keep : InstanceId → Bool}

theorem leads_of_mem {e : Edge} (he : e ∈ g.edges) : g.Leads e.source e.target :=
  ⟨e, he, rfl, rfl⟩

/-- The roots stay the same when they are kept and what is left out is closed downwards. -/
theorem roots_restrict (hroots : ∀ id ∈ g.roots, keep id = true)
    (hclosed : ∀ a b, g.Leads a b → keep a = false → keep b = false) :
    (g.restrict keep).roots = g.roots := by
  have hids : (g.restrict keep).nodes.map (·.id) = (g.nodes.map (·.id)).filter keep := by
    rw [restrict, List.filter_map]
    rfl
  rw [roots, roots, hids, List.filter_filter]
  refine List.filter_congr fun id hid => ?_
  rw [Bool.eq_iff_iff, Bool.and_eq_true, Bool.not_eq_true', Bool.not_eq_true', List.any_eq_false,
    List.any_eq_false]
  simp only [beq_iff_eq, restrict, List.mem_filter, Bool.and_eq_true]
  constructor
  · rintro ⟨hnone, hkeep⟩ e he htarget
    refine hnone e ⟨he, ?_, htarget ▸ hkeep⟩ htarget
    by_contra hsource
    have := hclosed _ _ (leads_of_mem he) (Bool.eq_false_iff.2 hsource)
    rw [htarget, hkeep] at this
    exact Bool.noConfusion this
  · intro hnone
    exact ⟨fun e he => hnone e he.1, hroots id (mem_roots_iff.2 ⟨hid, hnone⟩)⟩

theorem lookup_filter_fst {κ α : Type} [BEq κ] [LawfulBEq κ] (keep : κ → Bool) (t : List (κ × α))
    {key : κ} (h : keep key = true) :
    (t.filter fun e => keep e.1).lookup key = t.lookup key := by
  induction t with
  | nil => rfl
  | cons e t ih =>
    obtain ⟨k, a⟩ := e
    by_cases hk : key = k
    · subst hk
      have hhead : keep (key, a).1 = true := h
      rw [List.filter_cons, if_pos hhead, List.lookup_cons_self, List.lookup_cons_self]
    · have hne : (key == k) = false := by simpa using hk
      rw [List.filter_cons]
      split
      · rw [List.lookup_cons, List.lookup_cons, hne, ih]
      · rw [List.lookup_cons, hne, ih]

/-- A node that is kept has its instance. -/
theorem state?_ofGraph_restrict {id : InstanceId} (h : keep id = true) :
    (Store.ofGraph (g.restrict keep)).state? id = (Store.ofGraph g).state? id := by
  have hstore : Store.ofGraph (g.restrict keep) =
      (Store.ofGraph g).filter fun e => keep e.1 := by
    rw [Store.ofGraph, Store.ofGraph, restrict, List.filterMap_filter, List.filter_filterMap]
    refine List.filterMap_congr fun n _ => ?_
    cases n.state <;> cases hkeep : keep n.id <;> simp [Option.filter, hkeep]
  rw [Store.state?, Store.state?, hstore, lookup_filter_fst keep _ h]

/-- A node that is kept with its children has the same children. -/
theorem children_build_restrict {id : InstanceId} (hid : keep id = true)
    (hchildren : ∀ b, g.Leads id b → keep b = true) (field : String) :
    (EdgeIndex.build (g.restrict keep).edges).children id field =
      (EdgeIndex.build g.edges).children id field := by
  have htargets : Edge.targetsFrom (g.restrict keep).edges id field =
      Edge.targetsFrom g.edges id field := by
    rw [Edge.targetsFrom, Edge.targetsFrom, restrict, List.filter_filter]
    congr 1
    refine List.filter_congr fun e he => ?_
    by_cases hfrom : e.source = id
    · have hkeep := hchildren e.target (hfrom ▸ leads_of_mem he)
      simp [hfrom, hid, hkeep]
    · simp [hfrom]
  rw [EdgeIndex.children_build, EdgeIndex.children_build, htargets]

end Restrict

end SyntaxGraph.Graph
