import SyntaxGraph.Proofs.Graph.Invariants

/-!
# What connecting does

Connecting a field of a node to a target takes out edges for two reasons, in one pass: the target
gives up its previous parents, and a field for a single node its previous children. The main
statement says what this comes to. The children of the field are exchanged or get one more; every
other field loses the target and nothing else; and the new roots are the nodes that the field has
given up and no other field holds.

Nothing is asked of the graph. Edges may repeat, a node may have several parents, and the target may
be the source.
-/

namespace SyntaxGraph.Graph

/-! ### The edges that stay -/

theorem staysBeside_iff {kind : FieldKind} {source target : InstanceId} {field : String}
    {e : Edge} :
    staysBeside kind source field target e = true ↔
      e.target ≠ target ∧ ¬(kind = .singleNode ∧ e.source = source ∧ e.field = field) := by
  rw [staysBeside, Bool.and_eq_true, bne_iff_ne, Bool.not_eq_true', ← Bool.not_eq_true]
  simp only [Bool.and_eq_true, beq_iff_eq, and_assoc, ne_eq]

/-- A field for a single node that is connected keeps no child; any other field keeps all of its
children but the target. -/
theorem targetsFrom_filter_staysBeside (kind : FieldKind) (source : InstanceId) (field : String)
    (target : InstanceId) (edges : List Edge) (s : InstanceId) (f : String) :
    Edge.targetsFrom (edges.filter (staysBeside kind source field target)) s f =
      if kind = .singleNode ∧ s = source ∧ f = field then []
      else (Edge.targetsFrom edges s f).filter (· ≠ target) := by
  split
  · rename_i hport
    obtain ⟨hkind, rfl, rfl⟩ := hport
    refine targetsFrom_eq_nil fun e he hsame => ?_
    obtain ⟨-, hfree⟩ := staysBeside_iff.1 (List.mem_filter.1 he).2
    exact hfree ⟨hkind, hsame⟩
  · rename_i hport
    rw [Edge.targetsFrom, Edge.targetsFrom, List.filter_map, List.filter_filter, List.filter_filter]
    congr 1
    refine List.filter_congr fun e _ => ?_
    -- among the edges from `f` of `s`, those stay that lead elsewhere
    by_cases hsame : e.source = s ∧ e.field = f
    · obtain ⟨rfl, rfl⟩ := hsame
      have hstays : staysBeside kind source field target e = decide (e.target ≠ target) := by
        rw [Bool.eq_iff_iff, staysBeside_iff, decide_eq_true_iff]
        exact and_iff_left hport
      rw [hstays, Bool.and_comm]
      rfl
    · have hother : (e.source == s && e.field == f) = false := by
        simpa using fun hs hf => hsame ⟨hs, hf⟩
      rw [hother, Bool.false_and, Bool.and_false]

/-! ### Roots -/

theorem mem_roots_iff {g : Graph} {id : InstanceId} :
    id ∈ g.roots ↔ id ∈ g.nodes.map (·.id) ∧ ∀ e ∈ g.edges, e.target ≠ id := by
  simp [roots]

/-- No edge into a node stays exactly when there was none, or when all of them came from the field
for a single node that is connected. -/
theorem forall_staysBeside_ne_iff {kind : FieldKind} {source target id : InstanceId}
    {field : String} {edges : List Edge} (hid : id ≠ target) :
    (∀ e ∈ edges.filter (staysBeside kind source field target), e.target ≠ id) ↔
      (∀ e ∈ edges, e.target ≠ id) ∨
        kind = .singleNode ∧ ∀ e ∈ edges, e.target = id → e.source = source ∧ e.field = field := by
  constructor
  · intro hnone
    by_cases hkind : kind = .singleNode
    · refine .inr ⟨hkind, fun e he htarget => ?_⟩
      by_contra hother
      refine hnone e (List.mem_filter.2 ⟨he, staysBeside_iff.2 ⟨?_, ?_⟩⟩) htarget
      · rwa [htarget]
      · exact fun hport => hother hport.2
    · refine .inl fun e he htarget => ?_
      refine hnone e (List.mem_filter.2 ⟨he, staysBeside_iff.2 ⟨?_, ?_⟩⟩) htarget
      · rwa [htarget]
      · exact fun hport => hkind hport.1
  · rintro (hnone | ⟨hkind, hport⟩) e he
    · exact hnone e (List.mem_of_mem_filter he)
    · obtain ⟨hmem, hstays⟩ := List.mem_filter.1 he
      intro htarget
      exact (staysBeside_iff.1 hstays).2 ⟨hkind, hport e hmem htarget⟩

/-! ### Connecting -/

section Connect

variable {g g' : Graph} {source target : InstanceId} {field : String}

/-- What connecting needs, and what it leaves. -/
theorem exists_kind_of_connect (h : g.connect source field target = .ok g') :
    ∃ i kind, g.state? source = some i ∧ i.nodeFieldKind? field = some kind ∧
      g' = { g with
        edges := g.edges.filter (staysBeside kind source field target) ++
          [⟨source, field, target⟩] } := by
  unfold connect at h
  split at h
  · obtain ⟨kind, hkind, h⟩ := Schema.exists_of_bind_eq_ok h
    obtain ⟨i, hi, hfield⟩ := nodeFieldKind_eq_ok hkind
    exact ⟨i, kind, hi, hfield, (Except.ok.inj h).symm⟩
  · simp at h

theorem targetsFrom_single (s : InstanceId) (f : String) :
    Edge.targetsFrom [⟨source, field, target⟩] s f =
      if s = source ∧ f = field then [target] else [] := by
  split
  · rename_i hsame
    obtain ⟨rfl, rfl⟩ := hsame
    simp [Edge.targetsFrom]
  · rename_i hother
    refine targetsFrom_eq_nil fun e he hsame => ?_
    obtain rfl := List.mem_singleton.1 he
    exact hother ⟨hsame.1.symm, hsame.2.symm⟩

/-- **Connecting has the semantics of ports.** The field that is connected has the target as its
last child; if it is first declared for a single node, it has no other, and else it has its other
children as before. Every other field of every node has its children as before, without the target.
The nodes with their instances are the same. The roots are, in the order of the nodes, all nodes but
the target that were roots or, if the field is for a single node, all of whose edges came from this
field. -/
theorem connect_ports (h : g.connect source field target = .ok g') :
    ∃ i kind, g.state? source = some i ∧ i.nodeFieldKind? field = some kind ∧
      g'.children source field =
        (if kind = .singleNode then [target]
          else (g.children source field).filter (· ≠ target) ++ [target]) ∧
      (∀ s f, (s, f) ≠ (source, field) →
        g'.children s f = (g.children s f).filter (· ≠ target)) ∧
      g'.nodes = g.nodes ∧
      g'.roots = (g.nodes.map (·.id)).filter fun id => id ≠ target ∧
        (id ∈ g.roots ∨ kind = .singleNode ∧
          ∀ e ∈ g.edges, e.target = id → e.source = source ∧ e.field = field) := by
  obtain ⟨i, kind, hi, hkind, rfl⟩ := exists_kind_of_connect h
  refine ⟨i, kind, hi, hkind, ?_, fun s f hother => ?_, rfl, ?_⟩
  · rw [children, targetsFrom_append, targetsFrom_filter_staysBeside, targetsFrom_single]
    by_cases hsingle : kind = .singleNode <;> simp [hsingle, children]
  · have hother : ¬(s = source ∧ f = field) := by simpa using hother
    rw [children, targetsFrom_append, targetsFrom_filter_staysBeside, targetsFrom_single,
      if_neg hother, if_neg fun hport => hother hport.2, List.append_nil]
    rfl
  · rw [roots]
    refine List.filter_congr fun id hid => ?_
    rw [Bool.eq_iff_iff, decide_eq_true_iff, mem_roots_iff, Bool.not_eq_true', List.any_eq_false]
    simp only [beq_iff_eq, List.forall_mem_append, List.forall_mem_singleton]
    constructor
    · rintro ⟨hnone, hnew⟩
      have hne : id ≠ target := Ne.symm hnew
      exact ⟨hne, ((forall_staysBeside_ne_iff hne).1 hnone).imp_left fun hnone => ⟨hid, hnone⟩⟩
    · rintro ⟨hne, hold⟩
      exact ⟨(forall_staysBeside_ne_iff hne).2 (hold.imp_left (·.2)), Ne.symm hne⟩

end Connect

/-- An instance with a field for a single node and a field for any number of nodes. -/
def knotState : Instance :=
  let fields : List FieldUnit :=
    [.ofSpec { name := "Left", declaredType := "ExpressionSyntax" },
      .ofSpec { name := "Rest", declaredType := "SyntaxList<ExpressionSyntax>" }]
  ⟨⟨1⟩, { name := "Knot", fields }, fields⟩

/-- A node that is its own child, with one node twice in its field for a single node. -/
def knot : Graph where
  nodes := [⟨⟨1⟩, some knotState⟩, ⟨⟨2⟩, none⟩, ⟨⟨3⟩, none⟩]
  edges := [⟨⟨1⟩, "Left", ⟨2⟩⟩, ⟨⟨1⟩, "Rest", ⟨1⟩⟩, ⟨⟨1⟩, "Rest", ⟨3⟩⟩, ⟨⟨1⟩, "Left", ⟨2⟩⟩]

/-- The node moves from one of its own fields to the other, and both edges to the second node go. -/
theorem connect_ports_knot :
    ∃ g', knot.connect ⟨1⟩ "Left" ⟨1⟩ = .ok g' ∧ g'.children ⟨1⟩ "Left" = [⟨1⟩] ∧
      g'.children ⟨1⟩ "Rest" = [⟨3⟩] ∧ g'.nodes = knot.nodes ∧ knot.roots = [] ∧
      g'.roots = [⟨2⟩] := by
  obtain ⟨g', hg'⟩ : ∃ g', knot.connect ⟨1⟩ "Left" ⟨1⟩ = .ok g' := ⟨_, rfl⟩
  obtain ⟨i, kind, hi, hkind, hchildren, hothers, hnodes, hroots⟩ := connect_ports hg'
  obtain rfl : knotState = i := Option.some.inj hi
  obtain rfl : .singleNode = kind := Option.some.inj hkind
  refine ⟨g', hg', hchildren, ?_, hnodes, by decide, ?_⟩
  · rw [hothers ⟨1⟩ "Rest" (by decide)]
    decide
  · rw [hroots]
    decide

end SyntaxGraph.Graph
