import SyntaxGraph.Proofs.Graph.Edits
import SyntaxGraph.Proofs.Programs

/-!
# Editing in place

The nine edits of a graph as programs that change it in place, one write to the nodes, to the edges
or to the counter after the other. A program that fails keeps the writes it has made so far.

The main statement says that nobody ever sees half an edit: each program makes all of its writes or
none, and what it answers and leaves is the outcome of the edit as a function of the graph.
-/

namespace SyntaxGraph

/-- Whether the unit at a path is a choice with an alternative of the given index. -/
def Units.offers (us : List FieldUnit) (path : List Nat) (index : Nat) : Bool :=
  match unitAt? us path with
  | some (.choice _ _ alternatives _) => index < alternatives.length
  | _ => false

theorem Units.offers_iff {us : List FieldUnit} {path : List Nat} {index : Nat} :
    offers us path index = true ↔
      ∃ n o cs k, unitAt? us path = some (.choice n o cs k) ∧ index < cs.length := by
  unfold offers
  split
  · rename_i n o cs k hat
    rw [decide_eq_true_iff]
    constructor
    · exact fun hlt => ⟨n, o, cs, k, hat, hlt⟩
    · rintro ⟨n', o', cs', k', hat', hlt⟩
      obtain ⟨rfl, rfl, rfl, rfl⟩ := FieldUnit.choice.inj (Option.some.inj (hat.symm.trans hat'))
      exact hlt
  · rename_i hother
    simp only [Bool.false_eq_true, false_iff]
    rintro ⟨n, o, cs, k, hat, -⟩
    exact hother n o cs k hat

/-- What selecting an alternative does, with its two looks at the path told apart. -/
theorem Graph.selectChoice_eq (g : Graph) (id : InstanceId) (path : List Nat) (index : Nat) :
    g.selectChoice id path index = (do
      let i ← g.liveState id
      if Units.offers i.fields path index then
        match i.withChoice? path index with
        | some j => .ok (g.withState id j)
        | none => .error (.invalidChoice id path index)
      else .error (.invalidChoice id path index)) := by
  unfold selectChoice
  congr 1
  funext i
  unfold Units.offers
  cases Units.unitAt? i.fields path with
  | none => rfl
  | some u =>
    cases u with
    | choice n o cs k =>
      exact ite_congr decide_eq_true_eq.symm (fun _ => rfl) fun _ => rfl
    | single f v => rfl
    | sequence cs => rfl

/-- A graph that is being edited, with the counter for its new nodes. -/
structure Session where
  graph : Graph
  counter : Counter

/-- A program that edits a graph in place. -/
abbrev Editing := ExceptT Graph.Error (StateM Session)

namespace Editing

/-! ### Writes -/

/-- Writes the nodes. -/
def changeNodes (f : List GraphNode → List GraphNode) : Editing Unit :=
  modify fun s => { s with graph := { s.graph with nodes := f s.graph.nodes } }

/-- Writes the edges. -/
def changeEdges (f : List Edge → List Edge) : Editing Unit :=
  modify fun s => { s with graph := { s.graph with edges := f s.graph.edges } }

/-- Takes an id from the counter. -/
def freshId : Editing InstanceId := do
  let (id, counter) := (← get).counter.fresh
  modify fun s => { s with counter }
  return id

/-! ### The edits -/

def addNode (t : Template) : Editing InstanceId := do
  let id ← freshId
  changeNodes (Graph.putNode ⟨id, some ⟨id, t, t.fields⟩⟩)
  return id

def addNamed (c : Schema.Catalog) (name : String) : Editing InstanceId :=
  match c.template? name with
  | some t => addNode t
  | none => throw (.unknownTemplate name)

def addPlaceholder : Editing InstanceId := do
  let id ← freshId
  changeNodes (Graph.putNode ⟨id, none⟩)
  return id

def insert (i : Instance) : Editing InstanceId := do
  changeNodes (Graph.putNode ⟨i.id, some i⟩)
  return i.id

def removeNode (id : InstanceId) : Editing GraphNode := do
  match (← get).graph.node? id with
  | none => throw (.unknownNode id)
  | some n =>
    changeNodes fun ns => ns.filter (·.id != id)
    changeEdges fun es => es.filter fun e => e.source != id && e.target != id
    return n

/-- The instance of a node that must have one. -/
def liveState (id : InstanceId) : Editing Instance := do
  match (← get).graph.node? id with
  | none => throw (.unknownNode id)
  | some n =>
    match n.state with
    | none => throw (.noLiveState id)
    | some i => return i

/-- Writes the instance of a node. -/
def writeState (id : InstanceId) (i : Instance) : Editing Unit :=
  changeNodes fun ns => ns.map fun n => if n.id = id then { n with state := some i } else n

def setValue (id : InstanceId) (field : String) (value : Option String) : Editing Unit := do
  let i ← liveState id
  writeState id (i.withValue field value)

def selectChoice (id : InstanceId) (path : List Nat) (index : Nat) : Editing Unit := do
  let i ← liveState id
  if Units.offers i.fields path index then pure () else throw (.invalidChoice id path index)
  match i.withChoice? path index with
  | some j => writeState id j
  | none => throw (.invalidChoice id path index)

/-- The kind of a node field of a node. -/
def nodeFieldKind (id : InstanceId) (field : String) : Editing FieldKind := do
  let i ← liveState id
  match i.nodeFieldKind? field with
  | some kind => return kind
  | none => throw (.notANodeField i.name field)

def connect (source : InstanceId) (field : String) (target : InstanceId) : Editing Unit := do
  if (← get).graph.contains target then pure () else throw (.unknownNode target)
  let kind ← nodeFieldKind source field
  changeEdges fun es => es.filter (Graph.staysBeside kind source field target)
  changeEdges fun es => es ++ [⟨source, field, target⟩]

/-- Takes out an edge, and tells from the number of edges whether it was there. -/
def disconnect (source : InstanceId) (field : String) (target : InstanceId) : Editing Bool := do
  let before := (← get).graph.edges.length
  changeEdges fun es => es.filter (· != ⟨source, field, target⟩)
  return (← get).graph.edges.length != before

/-- What an edit answers. -/
inductive Answer where
  | id (id : InstanceId)
  | node (n : GraphNode)
  | done
  | wasThere (b : Bool)

/-- The program of an edit. -/
def edit : Graph.Edit → Editing Answer
  | .addNode t => .id <$> addNode t
  | .addNamed c name => .id <$> addNamed c name
  | .addPlaceholder => .id <$> addPlaceholder
  | .insert i => .id <$> insert i
  | .removeNode id => .node <$> removeNode id
  | .setValue id field value => (fun _ => .done) <$> setValue id field value
  | .selectChoice id path index => (fun _ => .done) <$> selectChoice id path index
  | .connect source field target => (fun _ => .done) <$> connect source field target
  | .disconnect source field target => .wasThere <$> disconnect source field target

end Editing

/-! ### Outcomes -/

namespace Session

open Editing (Answer)

/-- Takes over the outcome of an edit. A failed one leaves everything as it was. -/
def commit (s : Session) : Except Graph.Error (α × Session) → Except Graph.Error α × Session
  | .ok (a, s') => (.ok a, s')
  | .error e => (.error e, s)

/-- The outcome of an edit, as a function of the graph and the counter. -/
def outcome (s : Session) : Graph.Edit → Except Graph.Error (Answer × Session)
  | .addNode t =>
    let (id, g, counter) := s.graph.addNode t s.counter
    .ok (.id id, ⟨g, counter⟩)
  | .addNamed c name =>
    (s.graph.addNamed c name s.counter).map fun (id, g, counter) => (.id id, ⟨g, counter⟩)
  | .addPlaceholder =>
    let (id, g, counter) := s.graph.addPlaceholder s.counter
    .ok (.id id, ⟨g, counter⟩)
  | .insert i => .ok (.id i.id, ⟨s.graph.insert i, s.counter⟩)
  | .removeNode id => (s.graph.removeNode id).map fun (n, g) => (.node n, ⟨g, s.counter⟩)
  | .setValue id field value =>
    (s.graph.setValue id field value).map fun g => (.done, ⟨g, s.counter⟩)
  | .selectChoice id path index =>
    (s.graph.selectChoice id path index).map fun g => (.done, ⟨g, s.counter⟩)
  | .connect source field target =>
    (s.graph.connect source field target).map fun g => (.done, ⟨g, s.counter⟩)
  | .disconnect source field target =>
    let (b, g) := s.graph.disconnect source field target
    .ok (.wasThere b, ⟨g, s.counter⟩)

end Session

namespace Editing

variable (s : Session)

theorem run_liveState (id : InstanceId) : (liveState id).run s = (s.graph.liveState id, s) := by
  simp only [liveState, Graph.liveState, run_bind, run_get]
  cases s.graph.node? id with
  | none => rfl
  | some n =>
    obtain ⟨k, state⟩ := n
    cases state <;> rfl

theorem run_nodeFieldKind (id : InstanceId) (field : String) :
    (nodeFieldKind id field).run s = (s.graph.nodeFieldKind id field, s) := by
  simp only [nodeFieldKind, Graph.nodeFieldKind, run_bind, run_liveState]
  cases s.graph.liveState id with
  | error e => rfl
  | ok i =>
    simp only [bind, Except.bind]
    cases i.nodeFieldKind? field <;> rfl

theorem run_removeNode (id : InstanceId) : (removeNode id).run s =
    s.commit ((s.graph.removeNode id).map fun r => (r.1, ⟨r.2, s.counter⟩)) := by
  simp only [removeNode, Graph.removeNode, run_bind, run_get]
  cases s.graph.node? id <;> rfl

theorem run_setValue (id : InstanceId) (field : String) (value : Option String) :
    (setValue id field value).run s =
      s.commit ((s.graph.setValue id field value).map fun g => ((), ⟨g, s.counter⟩)) := by
  simp only [setValue, Graph.setValue, run_bind, run_liveState]
  cases s.graph.liveState id <;> rfl

theorem run_selectChoice (id : InstanceId) (path : List Nat) (index : Nat) :
    (selectChoice id path index).run s =
      s.commit ((s.graph.selectChoice id path index).map fun g => ((), ⟨g, s.counter⟩)) := by
  simp only [selectChoice, Graph.selectChoice_eq, run_bind, run_liveState]
  cases s.graph.liveState id with
  | error e => rfl
  | ok i =>
    simp only [bind, Except.bind]
    cases Units.offers i.fields path index with
    | false => rfl
    | true => cases i.withChoice? path index <;> rfl

theorem run_connect (source : InstanceId) (field : String) (target : InstanceId) :
    (connect source field target).run s =
      s.commit ((s.graph.connect source field target).map fun g => ((), ⟨g, s.counter⟩)) := by
  simp only [connect, Graph.connect, run_bind, run_get]
  cases s.graph.contains target with
  | false => rfl
  | true =>
    simp only [if_true, run_bind, run_nodeFieldKind]
    cases s.graph.nodeFieldKind source field <;> rfl

/-- Taking out an edge shortens the list of edges exactly when the edge is in it. -/
theorem run_disconnect (source : InstanceId) (field : String) (target : InstanceId) :
    (disconnect source field target).run s =
      (.ok (s.graph.disconnect source field target).1,
        ⟨(s.graph.disconnect source field target).2, s.counter⟩) := by
  have hlength : ∀ (e : Edge) (es : List Edge),
      ((es.filter (· != e)).length != es.length) = es.contains e := by
    intro e es
    rw [Bool.eq_iff_iff, bne_iff_ne, List.contains_iff_mem, ne_eq, List.length_filter_eq_length_iff]
    simp
  simp only [disconnect, Graph.disconnect, ← hlength]
  rfl

/-- **Editing in place makes all of an edit or nothing of it.** -/
theorem run_edit (e : Graph.Edit) : (edit e).run s = s.commit (s.outcome e) := by
  cases e with
  | addNode t => rfl
  | addNamed c name =>
    simp only [edit, addNamed, run_map, Session.outcome, Graph.addNamed]
    cases c.template? name <;> rfl
  | addPlaceholder => rfl
  | insert i => rfl
  | removeNode id =>
    simp only [edit, run_map, run_removeNode, Session.outcome]
    cases s.graph.removeNode id <;> rfl
  | setValue id field value =>
    simp only [edit, run_map, run_setValue, Session.outcome]
    cases s.graph.setValue id field value <;> rfl
  | selectChoice id path index =>
    simp only [edit, run_map, run_selectChoice, Session.outcome]
    cases s.graph.selectChoice id path index <;> rfl
  | connect source field target =>
    simp only [edit, run_map, run_connect, Session.outcome]
    cases s.graph.connect source field target <;> rfl
  | disconnect source field target =>
    simp only [edit, run_map, run_disconnect, Session.outcome]
    rfl

end Editing

end SyntaxGraph
