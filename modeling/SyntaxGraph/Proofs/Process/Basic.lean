import SyntaxGraph.Proofs.Graph.Loading

/-!
# Processes

A process works on any number of graphs and takes all of its ids from one counter. It stamps
instances, reserves ids, reads instances and graphs from text, converts trees, and edits, copies and
drops its graphs, in any order. What is inserted into a graph is an instance that the process has, so
its id was handed out or came from outside before.

A process remembers what its theorems are about: the ids that were handed out, the ids that came from
outside, and of each graph how it began, whether an insertion put an instance in the place of a node,
and whether a new node got an id that was taken.

An action does one of two things to the ids: it takes some from the counter, or it reserves some. And
every graph after an action was there before, has just begun, or comes from one that was there by an
edit.
-/

namespace SyntaxGraph

/-! ### The state of a process -/

/-- The ids of a process. -/
structure Ledger where
  counter : Counter := {}
  /-- The ids that were handed out, in order. -/
  issued : List InstanceId := []
  /-- The ids that were reserved or loaded, in order. -/
  outside : List InstanceId := []

namespace Ledger

/-- The ids that instances can have. -/
def known (l : Ledger) : List InstanceId :=
  l.issued ++ l.outside

/-- Some ids were handed out. -/
def issue (l : Ledger) (ids : List InstanceId) (counter : Counter) : Ledger :=
  { l with counter, issued := l.issued ++ ids }

/-- Some ids came from outside. -/
def receive (l : Ledger) (ids : List InstanceId) (counter : Counter) : Ledger :=
  { l with counter, outside := l.outside ++ ids }

end Ledger

/-- How a graph began. -/
inductive Origin where
  | empty
  | loaded
  | converted
deriving DecidableEq

/-- A graph of a process. -/
structure LiveGraph where
  graph : Graph
  origin : Origin
  /-- An instance was inserted under an id that the graph had. -/
  replaced : Bool := false
  /-- A new node got an id that the graph had. -/
  reissued : Bool := false

/-- The state of a process. -/
structure Process where
  ids : Ledger := {}
  graphs : List LiveGraph := []

/-! ### Actions -/

/-- An edit inserts only an instance with an id that is known. -/
def Graph.Edit.isPossible (known : List InstanceId) : Edit → Bool
  | .insert i => decide (i.id ∈ known)
  | _ => true

/-- The edit inserts an instance under an id that the graph has. -/
def Graph.Edit.replaces (g : Graph) : Edit → Bool
  | .insert i => g.contains i.id
  | _ => false

namespace LiveGraph

/-- The ids of the instances of a conversion. -/
def idsOf (root : Option ConvertedNode) : List InstanceId :=
  (root.toList.flatMap (·.instances)).map (·.id)

/-- The graph of a conversion. -/
def ofRoot (root : Option ConvertedNode) : LiveGraph where
  graph := Graph.ofRoot root
  origin := .converted
  reissued := !decide (idsOf root).Nodup

/-- The graph after an edit. -/
def edit (l : LiveGraph) (counter : Counter) (e : Graph.Edit) : LiveGraph :=
  { l with
    graph := (l.graph.perform counter e).graph
    replaced := l.replaced || e.replaces l.graph
    reissued := l.reissued || (l.graph.perform counter e).taken.any l.graph.contains }

end LiveGraph

namespace Process

/-- What a process can do next. A graph is named by its position. -/
inductive Action where
  | stamp (t : Template)
  | reserve (id : InstanceId)
  | loadInstance (source : String)
  | newGraph
  | loadGraph (source : String)
  | convert (c : Schema.Catalog) (root : Tree.Node)
  | edit (position : Nat) (e : Graph.Edit)
  | copy (position : Nat)
  | discard (position : Nat)

/-- Takes an action. One that fails does no more than reserve ids. -/
def perform (p : Process) : Action → Process
  | .stamp t =>
    let (i, counter) := Instance.stamp t p.ids.counter
    { p with ids := p.ids.issue [i.id] counter }
  | .reserve id =>
    match p.ids.counter.reserve? id with
    | some counter => { p with ids := p.ids.receive [id] counter }
    | none => p
  | .loadInstance source =>
    let (r, counter) := Instance.load source p.ids.counter
    let ids := Instance.reservedBy source ++ r.toOption.toList.map (·.id)
    { p with ids := p.ids.receive ids counter }
  | .newGraph => { p with graphs := p.graphs ++ [{ graph := {}, origin := .empty }] }
  | .loadGraph source =>
    let (r, counter) := Graph.load source p.ids.counter
    let ids := Graph.reservedBy source ++
      r.toOption.toList.flatMap fun g => g.nodes.map (·.id)
    { ids := p.ids.receive ids counter
      graphs := p.graphs ++ r.toOption.toList.map fun g => { graph := g, origin := .loaded } }
  | .convert c root =>
    let (r, counter) := Conversion.convert c root p.ids.counter
    { ids := p.ids.issue (LiveGraph.idsOf r.root) counter
      graphs := p.graphs ++ [.ofRoot r.root] }
  | .edit position e =>
    match p.graphs[position]? with
    | some l =>
      if e.isPossible p.ids.known then
        let r := l.graph.perform p.ids.counter e
        { ids := p.ids.issue r.taken r.counter
          graphs := p.graphs.set position (l.edit p.ids.counter e) }
      else p
    | none => p
  | .copy position => { p with graphs := p.graphs ++ p.graphs[position]?.toList }
  | .discard position => { p with graphs := p.graphs.eraseIdx position }

/-- The process after some actions. -/
def runFrom (p : Process) (actions : List Action) : Process :=
  actions.foldl perform p

/-- A process after its actions. -/
def run (actions : List Action) : Process :=
  runFrom {} actions

theorem run_append (before after : List Action) :
    run (before ++ after) = runFrom (run before) after :=
  List.foldl_append

end Process

/-! ### What an action does to the ids -/

/-- How the ids of a process come from others by an action: the next ones are taken from the counter,
or some are reserved, and these are what came from outside. -/
inductive Ledger.Move (l : Ledger) : Ledger → Prop where
  | issue (number : Nat) : Move l (l.issue (l.counter.take number) (l.counter.skip number))
  | receive {reserved ids : List InstanceId} (hrange : ∀ id ∈ reserved, id.inRange = true)
    (hids : ∀ id, id ∈ ids ↔ id ∈ reserved) :
    Move l (l.receive ids (l.counter.reserveAll reserved))

theorem Ledger.Move.keep (l : Ledger) : Move l l := by
  have h := Move.issue (l := l) 0
  simpa [Ledger.issue] using h

theorem eq_ok_of_mem_toOption {r : Except ε α} {a : α} (h : a ∈ r.toOption.toList) : r = .ok a := by
  cases r with
  | error e => simp [Except.toOption] at h
  | ok b =>
    obtain rfl : a = b := by simpa [Except.toOption] using h
    rfl

/-- An edit takes one id or none. -/
theorem Graph.exists_taken_perform (g : Graph) (counter : Counter) (e : Edit) :
    ∃ number, number ≤ 1 ∧ (g.perform counter e).taken = counter.take number ∧
      (g.perform counter e).counter = counter.skip number := by
  have hresult : ∀ r : Except Error Graph,
      (Edited.ofResult g counter r).taken = counter.take 0 ∧
        (Edited.ofResult g counter r).counter = counter.skip 0 := by
    intro r
    cases r <;> exact ⟨rfl, rfl⟩
  cases e with
  | addNode t => exact ⟨1, Nat.le_refl 1, rfl, rfl⟩
  | addNamed c name =>
    simp only [perform, addNamed]
    cases c.template? name with
    | none => exact ⟨0, Nat.zero_le 1, rfl, rfl⟩
    | some t => exact ⟨1, Nat.le_refl 1, rfl, rfl⟩
  | addPlaceholder => exact ⟨1, Nat.le_refl 1, rfl, rfl⟩
  | insert i => exact ⟨0, Nat.zero_le 1, rfl, rfl⟩
  | removeNode id => exact ⟨0, Nat.zero_le 1, hresult _⟩
  | setValue id field value => exact ⟨0, Nat.zero_le 1, hresult _⟩
  | selectChoice id path index => exact ⟨0, Nat.zero_le 1, hresult _⟩
  | connect source field target => exact ⟨0, Nat.zero_le 1, hresult _⟩
  | disconnect source field target => exact ⟨0, Nat.zero_le 1, rfl, rfl⟩

namespace Process

/-- **What an action does to the ids.** -/
theorem move_perform (p : Process) (a : Action) : p.ids.Move (p.perform a).ids := by
  cases a with
  | stamp t => exact .issue 1
  | reserve id =>
    simp only [perform]
    cases hreserve : p.ids.counter.reserve? id with
    | none => exact .keep _
    | some counter =>
      have hrange : id.inRange = true := by
        rw [← Counter.reserve?_isSome p.ids.counter, hreserve]
        rfl
      have hcounter : p.ids.counter.reserveAll [id] = counter := by
        simp [Counter.reserveAll, hreserve]
      have hmove : p.ids.Move (p.ids.receive [id] (p.ids.counter.reserveAll [id])) :=
        .receive (by simpa using hrange) fun k => Iff.rfl
      rwa [hcounter] at hmove
  | loadInstance source =>
    simp only [perform]
    have hload := Instance.load_eq source p.ids.counter
    rw [hload]
    refine .receive (fun id hid => Instance.inRange_of_mem_reservedBy hid) fun id =>
      ⟨fun hid => ?_, List.mem_append_left _⟩
    rcases List.mem_append.1 hid with hid | hid
    · exact hid
    · obtain ⟨i, hi, rfl⟩ := List.mem_map.1 hid
      have hi : (Instance.load source p.ids.counter).1 = .ok i := by
        rw [hload]
        exact eq_ok_of_mem_toOption hi
      exact Instance.id_mem_reservedBy_of_load hi
  | newGraph => exact .keep _
  | loadGraph source =>
    simp only [perform]
    have hload := Graph.load_eq source p.ids.counter
    rw [hload]
    refine .receive (fun id hid => Graph.inRange_of_mem_reservedBy hid) fun id =>
      ⟨fun hid => ?_, List.mem_append_left _⟩
    rcases List.mem_append.1 hid with hid | hid
    · exact hid
    · obtain ⟨g, hg, hid⟩ := List.mem_flatMap.1 hid
      obtain ⟨n, hn, rfl⟩ := List.mem_map.1 hid
      have hg : (Graph.load source p.ids.counter).1 = .ok g := by
        rw [hload]
        exact eq_ok_of_mem_toOption hg
      exact (Graph.linked_of_load hg).2 n hn
  | convert c root =>
    have hnumbered := Conversion.numbered_convertNode c root p.ids.counter
    simp only [perform, Conversion.convert_eq, LiveGraph.idsOf]
    rw [hnumbered.ids, hnumbered.counter]
    exact .issue _
  | edit position e =>
    simp only [perform]
    split
    · split
      · rename_i l hl hpossible
        obtain ⟨number, -, htaken, hcounter⟩ := l.graph.exists_taken_perform p.ids.counter e
        rw [htaken, hcounter]
        exact .issue number
      · exact .keep _
    · exact .keep _
  | copy position => exact .keep _
  | discard position => exact .keep _

/-! ### Where the graphs come from -/

/-- How a graph of a process after an action comes from the process before it. -/
inductive Arises (p p' : Process) : LiveGraph → Prop where
  | stays {l : LiveGraph} (hl : l ∈ p.graphs) : Arises p p' l
  | empty : Arises p p' { graph := {}, origin := .empty }
  | loaded {source : String} {g : Graph} (hg : (Graph.load source p.ids.counter).1 = .ok g)
    (hids : ∀ n ∈ g.nodes, n.id ∈ p'.ids.outside) : Arises p p' { graph := g, origin := .loaded }
  | converted {c : Schema.Catalog} {root : Tree.Node}
    (hids : p'.ids.issued =
      p.ids.issued ++ LiveGraph.idsOf (Conversion.convert c root p.ids.counter).1.root) :
    Arises p p' (.ofRoot (Conversion.convert c root p.ids.counter).1.root)
  | edited {l : LiveGraph} {e : Graph.Edit} (hl : l ∈ p.graphs)
    (hpossible : e.isPossible p.ids.known = true)
    (hids : p'.ids.issued = p.ids.issued ++ (l.graph.perform p.ids.counter e).taken) :
    Arises p p' (l.edit p.ids.counter e)

/-- **Where the graphs come from.** -/
theorem arises_perform (p : Process) (a : Action) {l : LiveGraph} (hl : l ∈ (p.perform a).graphs) :
    Arises p (p.perform a) l := by
  cases a with
  | stamp t => exact .stays hl
  | reserve id =>
    refine .stays ?_
    simp only [perform] at hl
    cases hreserve : p.ids.counter.reserve? id with
    | none => simpa [hreserve] using hl
    | some counter => simpa [hreserve] using hl
  | loadInstance source => exact .stays hl
  | newGraph =>
    rcases List.mem_append.1 hl with hl | hl
    · exact .stays hl
    · obtain rfl := List.mem_singleton.1 hl
      exact .empty
  | loadGraph source =>
    rcases List.mem_append.1 hl with hl | hl
    · exact .stays hl
    · obtain ⟨g, hg, rfl⟩ := List.mem_map.1 hl
      refine .loaded (eq_ok_of_mem_toOption hg) fun n hn => ?_
      refine List.mem_append_right _ (List.mem_append_right _ ?_)
      exact List.mem_flatMap.2 ⟨g, hg, List.mem_map_of_mem hn⟩
  | convert c root =>
    rcases List.mem_append.1 hl with hl | hl
    · exact .stays hl
    · obtain rfl := List.mem_singleton.1 hl
      exact .converted rfl
  | edit position e =>
    simp only [perform] at hl ⊢
    cases hget : p.graphs[position]? with
    | none =>
      simp only [hget] at hl
      exact .stays hl
    | some m =>
      simp only [hget] at hl ⊢
      by_cases hpossible : e.isPossible p.ids.known = true
      · simp only [hpossible, if_true] at hl ⊢
        rcases List.mem_or_eq_of_mem_set hl with hl | rfl
        · exact .stays hl
        · exact .edited (List.mem_of_getElem? hget) hpossible rfl
      · simp only [hpossible] at hl
        exact .stays (by simpa using hl)
  | copy position =>
    rcases List.mem_append.1 hl with hl | hl
    · exact .stays hl
    · exact .stays (List.mem_of_getElem? (Option.mem_toList.1 hl))
  | discard position => exact .stays (List.mem_of_mem_eraseIdx hl)

end Process

end SyntaxGraph
