import SyntaxGraph.Proofs.Graph.InPlace
import SyntaxGraph.Proofs.Graph.Invariants
import SyntaxGraph.Proofs.Schema.UnitData

/-!
# Edits that are refused

When an edit is refused, and with which error. An edit that reads an instance first asks for the
node and then for its instance; a connection asks for the target before the source. A selection
looks at its path twice, once for the number of alternatives and once to change the selection, and
the two looks never disagree, so the second one has no refusal of its own.

The main statement is about editing in place: the refusals are exactly these, a refused edit leaves
the graph and the counter as they were, and a selection that is not refused changes one index.
-/

namespace SyntaxGraph

/-! ### Errors of a sequence of steps -/

theorem bind_eq_error_iff {x : Except ε α} {f : α → Except ε β} {e : ε} :
    (x >>= f) = .error e ↔ x = .error e ∨ ∃ a, x = .ok a ∧ f a = .error e := by
  cases x with
  | error e' => simp [bind, Except.bind]
  | ok a => simp [bind, Except.bind]

theorem map_eq_error_iff {x : Except ε α} {f : α → β} {e : ε} :
    x.map f = .error e ↔ x = .error e := by
  cases x <;> simp [Except.map]

namespace Graph

variable {g : Graph} {err : Error}

/-! ### The refusals -/

/-- Why there is no instance to work on. -/
def LacksState (g : Graph) (id : InstanceId) (err : Error) : Prop :=
  g.contains id = false ∧ err = .unknownNode id ∨
    g.contains id = true ∧ g.state? id = none ∧ err = .noLiveState id

/-- When an edit is refused, and why. -/
def Refuses (g : Graph) (err : Error) : Edit → Prop
  | .addNamed c name => c.template? name = none ∧ err = .unknownTemplate name
  | .removeNode id => g.contains id = false ∧ err = .unknownNode id
  | .setValue id _ _ => g.LacksState id err
  | .selectChoice id path index =>
    g.LacksState id err ∨ ∃ i, g.state? id = some i ∧
      (¬∃ n o cs k, Units.unitAt? i.fields path = some (.choice n o cs k) ∧ index < cs.length) ∧
      err = .invalidChoice id path index
  | .connect source field target =>
    g.contains target = false ∧ err = .unknownNode target ∨
      g.contains target = true ∧ (g.LacksState source err ∨ ∃ i, g.state? source = some i ∧
        (¬∃ path f v, Units.unitAt? i.fields path = some (.single f v) ∧ f.name = field ∧
          f.kind.isNode = true) ∧
        err = .notANodeField i.name field)
  | .addNode _ => False
  | .addPlaceholder => False
  | .insert _ => False
  | .disconnect .. => False

theorem liveState_eq_ok_iff {id : InstanceId} {i : Instance} :
    g.liveState id = .ok i ↔ g.state? id = some i := by
  refine ⟨liveState_eq_ok, fun h => ?_⟩
  obtain ⟨n, hn, hi⟩ := Option.bind_eq_some_iff.1 h
  simp only [liveState, hn, hi]

theorem liveState_eq_error_iff {id : InstanceId} :
    g.liveState id = .error err ↔ g.LacksState id err := by
  unfold liveState LacksState contains state?
  cases hn : g.node? id with
  | none => simp [eq_comm]
  | some n => cases hi : n.state <;> simp [hi, eq_comm]

/-- A field carries no child nodes when none of the units is a single field of its name that does.
-/
theorem nodeFieldKind?_eq_none_iff {i : Instance} {field : String} :
    i.nodeFieldKind? field = none ↔
      ¬∃ path f v, Units.unitAt? i.fields path = some (.single f v) ∧ f.name = field ∧
        f.kind.isNode = true := by
  rw [Instance.nodeFieldKind?, Option.map_eq_none_iff, List.find?_eq_none]
  simp only [Instance.nodeFields, Units.nodeFields, Units.specs, List.mem_filter, List.mem_map,
    Prod.exists, Units.mem_singles_iff_unitAt?, beq_iff_eq]
  constructor
  · rintro hnone ⟨path, f, v, hat, hname, hkind⟩
    exact hnone f ⟨⟨f, v, ⟨path, hat⟩, rfl⟩, hkind⟩ hname
  · rintro hnone f ⟨⟨f, v, ⟨path, hat⟩, rfl⟩, hkind⟩ hname
    exact hnone ⟨path, f, v, hat, hname, hkind⟩

theorem nodeFieldKind_eq_error_iff {id : InstanceId} {field : String} :
    g.nodeFieldKind id field = .error err ↔
      g.LacksState id err ∨ ∃ i, g.state? id = some i ∧
        i.nodeFieldKind? field = none ∧ err = .notANodeField i.name field := by
  rw [nodeFieldKind, bind_eq_error_iff, liveState_eq_error_iff]
  refine or_congr_right (exists_congr fun i => and_congr liveState_eq_ok_iff ?_)
  cases i.nodeFieldKind? field <;> simp [eq_comm]

theorem selectChoice_eq_error_iff {id : InstanceId} {path : List Nat} {index : Nat} :
    g.selectChoice id path index = .error err ↔
      g.LacksState id err ∨ ∃ i, g.state? id = some i ∧
        Units.offers i.fields path index = false ∧ err = .invalidChoice id path index := by
  rw [selectChoice_eq, bind_eq_error_iff, liveState_eq_error_iff]
  refine or_congr_right (exists_congr fun i => and_congr liveState_eq_ok_iff ?_)
  cases hoffers : Units.offers i.fields path index with
  | false => simp [eq_comm]
  | true =>
    -- the second look at the path finds the choice that the first one has found
    obtain ⟨n, o, cs, k, hat, -⟩ := Units.offers_iff.1 hoffers
    obtain ⟨us, hus⟩ := Units.exists_withChoice? hat index
    simp [Instance.withChoice?, hus]

theorem connect_eq_error_iff {source target : InstanceId} {field : String} :
    g.connect source field target = .error err ↔
      g.contains target = false ∧ err = .unknownNode target ∨
        g.contains target = true ∧ g.nodeFieldKind source field = .error err := by
  unfold connect
  cases g.contains target with
  | false => simp [eq_comm]
  | true =>
    rw [if_pos rfl, bind_eq_error_iff]
    simp [pure, Except.pure]

/-- **An edit fails exactly when it is refused.** -/
theorem outcome_eq_error_iff {s : Session} {e : Edit} :
    s.outcome e = .error err ↔ s.graph.Refuses err e := by
  cases e with
  | addNode t => simp [Session.outcome, Refuses]
  | addNamed c name =>
    rw [Session.outcome, map_eq_error_iff, addNamed, Refuses]
    cases c.template? name <;> simp [eq_comm]
  | addPlaceholder => simp [Session.outcome, Refuses]
  | insert i => simp [Session.outcome, Refuses]
  | removeNode id =>
    rw [Session.outcome, map_eq_error_iff, removeNode, Refuses, contains]
    cases s.graph.node? id <;> simp [eq_comm]
  | setValue id field value =>
    rw [Session.outcome, map_eq_error_iff, setValue, map_eq_error_iff]
    exact liveState_eq_error_iff
  | selectChoice id path index =>
    rw [Session.outcome, map_eq_error_iff, selectChoice_eq_error_iff, Refuses]
    simp only [← Units.offers_iff, Bool.not_eq_true]
  | connect source field target =>
    rw [Session.outcome, map_eq_error_iff, connect_eq_error_iff, nodeFieldKind_eq_error_iff,
      Refuses]
    simp only [nodeFieldKind?_eq_none_iff]
  | disconnect source field target => simp [Session.outcome, Refuses]

/-! ### A selection that is not refused -/

/-- A node has taken an alternative of the choice at a path, and nothing else has changed. -/
structure Selects (g g' : Graph) (id : InstanceId) (path : List Nat) (index : Nat) : Prop where
  edges : g'.edges = g.edges
  ids : g'.nodes.map (·.id) = g.nodes.map (·.id)
  others : ∀ k, k ≠ id → g'.node? k = g.node? k
  selected : ∃ i j, g.state? id = some i ∧ g'.state? id = some j ∧
    j.id = i.id ∧ j.template = i.template ∧
    (∃ n o cs k, Units.unitAt? i.fields path = some (.choice n o cs k) ∧ index < cs.length ∧
      Units.unitAt? j.fields path = some (.choice n o cs index)) ∧
    ∀ q, q ≠ path → Units.dataAt? j.fields q = Units.dataAt? i.fields q

theorem node?_withState_of_ne {id k : InstanceId} (hk : k ≠ id) (i : Instance) :
    (g.withState id i).node? k = g.node? k := by
  simp only [node?, withState, List.find?_map]
  have hbeq : ((fun n : GraphNode => n.id == k) ∘ fun n : GraphNode =>
      if n.id = id then { n with state := some i } else n) = fun n => n.id == k := by
    funext n
    by_cases hn : n.id = id <;> simp [hn]
  rw [hbeq]
  cases hfind : g.nodes.find? (·.id == k) with
  | none => rfl
  | some n =>
    have hid : n.id = k := by simpa using List.find?_some hfind
    simp [hid, hk]

theorem selects_of_selectChoice {g' : Graph} {id : InstanceId} {path : List Nat} {index : Nat}
    (h : g.selectChoice id path index = .ok g') : g.Selects g' id path index := by
  rw [selectChoice_eq] at h
  obtain ⟨i, hi, h⟩ := Schema.exists_of_bind_eq_ok h
  have hi := liveState_eq_ok hi
  split at h
  · rename_i hoffers
    obtain ⟨n, o, cs, k, hat, hlt⟩ := Units.offers_iff.1 hoffers
    split at h
    · rename_i j hj
      obtain rfl := Except.ok.inj h
      refine ⟨rfl, ?_, fun k hk => node?_withState_of_ne hk j, i, j, hi, ?_,
        Instance.id_of_withChoice? hj, Instance.template_of_withChoice? hj, ?_⟩
      · rw [withState, List.map_map]
        refine List.map_congr_left fun n _ => ?_
        by_cases hn : n.id = id <;> simp [hn]
      · rw [state?_withState hi, if_pos rfl]
      · obtain ⟨us, hus, rfl⟩ := Option.map_eq_some_iff.1 hj
        obtain ⟨hself, hothers⟩ := Units.of_withChoice? hus hat
        exact ⟨⟨n, o, cs, k, hat, hlt, hself⟩, hothers⟩
    · simp at h
  · simp at h

/-! ### Editing in place -/

theorem fst_commit (s : Session) (r : Except Error (α × Session)) :
    (s.commit r).1 = r.map (·.1) := by
  cases r <;> rfl

/-- **Edits that are refused.** Editing in place answers and leaves the outcome of the edit. It
fails exactly when the edit is refused, with the error of the refusal, and then the graph and the
counter are as they were. When a selection succeeds, it changes one index of one instance and
nothing else. -/
theorem edit_refused (s : Session) (e : Edit) :
    ((Editing.edit e).run s = s.commit (s.outcome e)) ∧
    (∀ err, ((Editing.edit e).run s).1 = .error err ↔ s.graph.Refuses err e) ∧
    (∀ err, ((Editing.edit e).run s).1 = .error err → ((Editing.edit e).run s).2 = s) ∧
    ∀ id path index, e = .selectChoice id path index →
      ∀ answer s', (Editing.edit e).run s = (.ok answer, s') →
        s'.counter = s.counter ∧ s.graph.Selects s'.graph id path index := by
  refine ⟨Editing.run_edit s e, fun err => ?_, fun err h => ?_, ?_⟩
  · rw [Editing.run_edit, fst_commit, map_eq_error_iff, outcome_eq_error_iff]
  · rw [Editing.run_edit] at h ⊢
    rw [fst_commit, map_eq_error_iff] at h
    rw [h]
    rfl
  · rintro id path index rfl answer s' h
    rw [Editing.run_edit, Session.outcome] at h
    cases hselect : s.graph.selectChoice id path index with
    | error err =>
      rw [hselect] at h
      cases h
    | ok g' =>
      rw [hselect] at h
      obtain ⟨-, rfl⟩ := Prod.mk.inj h
      exact ⟨rfl, selects_of_selectChoice hselect⟩

/-- A node with a token field and, inside a sequence, a choice, and a placeholder. -/
def crossing : Session where
  graph :=
    let fields : List FieldUnit :=
      [.ofSpec { name := "Sign", declaredType := "SyntaxToken" },
        .sequence [.choice none false
          [.ofSpec { name := "Left", declaredType := "SyntaxToken" },
            .ofSpec { name := "Right", declaredType := "ExpressionSyntax" }] 0]]
    { nodes := [⟨⟨1⟩, some ⟨⟨1⟩, { name := "Cross", fields }, fields⟩⟩, ⟨⟨2⟩, none⟩] }
  counter := ⟨3⟩

/-- A token field takes no child, and the choice takes its second alternative. -/
theorem edit_refused_crossing :
    ((Editing.edit (.connect ⟨1⟩ "Sign" ⟨2⟩)).run crossing).1 =
        .error (.notANodeField "Cross" "Sign") ∧
      crossing.graph.Refuses (.notANodeField "Cross" "Sign") (.connect ⟨1⟩ "Sign" ⟨2⟩) ∧
      ((Editing.edit (.connect ⟨1⟩ "Sign" ⟨2⟩)).run crossing).2 = crossing ∧
      ∃ answer s', (Editing.edit (.selectChoice ⟨1⟩ [1, 0] 1)).run crossing = (.ok answer, s') ∧
        crossing.graph.Selects s'.graph ⟨1⟩ [1, 0] 1 := by
  obtain ⟨-, hrefused, hkept, -⟩ := edit_refused crossing (.connect ⟨1⟩ "Sign" ⟨2⟩)
  obtain ⟨-, -, -, hselected⟩ := edit_refused crossing (.selectChoice ⟨1⟩ [1, 0] 1)
  have hfails : ((Editing.edit (.connect ⟨1⟩ "Sign" ⟨2⟩)).run crossing).1 =
      .error (.notANodeField "Cross" "Sign") := rfl
  obtain ⟨answer, s', hs'⟩ :
      ∃ answer s', (Editing.edit (.selectChoice ⟨1⟩ [1, 0] 1)).run crossing = (.ok answer, s') :=
    ⟨_, _, rfl⟩
  exact ⟨hfails, (hrefused _).1 hfails, hkept _ hfails, answer, s', hs',
    (hselected ⟨1⟩ [1, 0] 1 rfl answer s' hs').2⟩

end Graph

end SyntaxGraph
