import SyntaxGraph.Proofs.Graph.Loading
import SyntaxGraph.Proofs.Json.Reading
import SyntaxGraph.Proofs.Schema.Json

/-!
# Graphs and their texts

The text of a graph is read to the JSON of the graph, and this to its nodes and edges, unless an
instance does not fit: its units nest too deep, or the number of a selected alternative is no word.
Then the text is malformed. The checks that follow find nothing if nodes, instances and edges fit
together and the ids are in range. So loading a graph from its own text gives the graph back or
calls the text malformed, and it does the first when nothing nests too deep and all numbers are
words. The ids of the graph are then reserved.
-/

namespace SyntaxGraph

/-! ### Selected alternatives -/

/-- The numbers of the alternatives that are selected in the instance and in its template. -/
def Instance.indices (i : Instance) : List Nat :=
  Units.indices i.template.fields ++ Units.indices i.fields

/-- The numbers of the alternatives that are selected anywhere in the graph. -/
def Graph.indices (g : Graph) : List Nat :=
  (g.nodes.filterMap (·.state)).flatMap Instance.indices

theorem Graph.mem_indices {g : Graph} {n : GraphNode} (hn : n ∈ g.nodes) {i : Instance}
    (hi : n.state = some i) {k : Nat} (hk : k ∈ i.indices) : k ∈ g.indices :=
  List.mem_flatMap.2 ⟨i, List.mem_filterMap.2 ⟨n, hn, hi⟩, hk⟩

/-! ### What is written is plain -/

section Plain

variable {fits : Nat → Prop} (hwords : ∀ n, n < UInt64.size → fits n)
include hwords

theorem InstanceId.plain_toJson (id : InstanceId) : id.toJson.Plain fits :=
  .nat (hwords _ id.number.toNat_lt)

theorem Instance.plain_toJson {i : Instance} (h : ∀ k ∈ i.indices, fits k) :
    i.toJson.Plain fits := by
  simp only [Instance.indices, List.forall_mem_append] at h
  refine .object ?_
  simp only [List.forall_mem_cons]
  exact ⟨i.id.plain_toJson hwords, i.template.plain_toJson hwords h.1,
    Units.plain_toJson hwords h.2, by simp⟩

theorem GraphNode.plain_toJson {n : GraphNode}
    (h : ∀ i, n.state = some i → ∀ k ∈ i.indices, fits k) : n.toJson.Plain fits := by
  refine .object ?_
  simp only [List.forall_mem_append, List.forall_mem_cons]
  refine ⟨⟨n.id.plain_toJson hwords, by simp⟩, ?_⟩
  cases hstate : n.state with
  | none => simp
  | some i => simpa using Instance.plain_toJson hwords (h i hstate)

theorem Edge.plain_toJson (e : Edge) : e.toJson.Plain fits := by
  refine .object ?_
  simp only [List.forall_mem_cons]
  exact ⟨e.source.plain_toJson hwords, .text _, e.target.plain_toJson hwords, by simp⟩

theorem Graph.plain_toJson {g : Graph} (h : ∀ k ∈ g.indices, fits k) : g.toJson.Plain fits := by
  refine .object ?_
  simp only [List.forall_mem_cons]
  refine ⟨.array (List.forall_mem_map.2 fun n hn => ?_),
    .array (List.forall_mem_map.2 fun e _ => e.plain_toJson hwords), by simp⟩
  exact GraphNode.plain_toJson hwords fun i hi k hk => h k (Graph.mem_indices hn hi hk)

end Plain

/-! ### Reading the parts -/

theorem InstanceId.ofJson?_toJson (id : InstanceId) : InstanceId.ofJson? id.toJson = some id := by
  rw [InstanceId.ofJson?, InstanceId.toJson, Json.toNatBelow?_ofNat, if_pos id.number.toNat_lt]
  simp

theorem Edge.ofJson?_toJson (e : Edge) : Edge.ofJson? e.toJson = some e := by
  rw [Edge.ofJson?, Edge.toJson, Json.record?_ofMembers (by decide) (by simp)]
  simp [List.lookup_cons, InstanceId.ofJson?_toJson]

/-- There is room for the units of the instance and of its template, and their numbers are words. -/
def Instance.Loadable (room : Nat) (i : Instance) : Prop :=
  Units.Loadable (room - 1 - 1) i.template.fields ∧ Units.Loadable (room - 1) i.fields

instance (room : Nat) (i : Instance) : Decidable (i.Loadable room) :=
  inferInstanceAs (Decidable (_ ∧ _))

theorem Instance.loadable {room : Nat} {i : Instance} (hroom : i.toJson.nesting ≤ room)
    (hwords : Words i.indices) : i.Loadable room := by
  simp only [Words, Instance.indices, List.forall_mem_append] at hwords
  obtain ⟨-, hroom⟩ := Json.nesting_ofMembers_le.1 hroom
  have htemplate := hroom ("template", i.template.toJson) (by simp)
  obtain ⟨-, htemplate⟩ := Json.nesting_ofMembers_le.1 htemplate
  exact ⟨Units.loadable (htemplate ("fields", _) (by simp)) hwords.1,
    Units.loadable (hroom ("fields", _) (by simp)) hwords.2⟩

/-- **An instance is read back from its JSON** exactly when it can be loaded. -/
theorem Instance.ofJson?_toJson (room : Nat) (i : Instance) :
    Instance.ofJson? room i.toJson = if i.Loadable room then some i else none := by
  rw [Instance.ofJson?, Instance.toJson, Json.record?_ofMembers (by decide) (by simp)]
  have htemplate := Template.ofJson?_toJson (room - 1) i.template
  have hfields := Units.ofJson?_toJson (room - 1) i.fields
  by_cases h : Units.Loadable (room - 1 - 1) i.template.fields <;>
    by_cases h' : Units.Loadable (room - 1) i.fields <;>
    simp [List.lookup_cons, InstanceId.ofJson?_toJson, htemplate, hfields, Instance.Loadable, h, h']

/-! ### Loading -/

/-- The instance of the node, if it has one, can be loaded. -/
def GraphNode.Loadable (room : Nat) (n : GraphNode) : Prop :=
  ∀ i ∈ n.state, i.Loadable (room - 1)

instance (room : Nat) (n : GraphNode) : Decidable (n.Loadable room) :=
  inferInstanceAs (Decidable (∀ i ∈ n.state, i.Loadable (room - 1)))

namespace Load

@[simp] theorem expect_some (a : α) : (expect (some a) : Load IdLog α) = pure a := rfl

/-- The answer of two steps. -/
theorem fst_run_bind (x : Load IdLog α) (f : α → Load IdLog β) (log : IdLog) :
    ((x >>= f).run log).1 = match (x.run log).1 with
      | .ok a => ((f a).run (x.run log).2).1
      | .error e => .error e := by
  rw [run_bind]
  cases x.run log with
  | mk r log => cases r <;> rfl

theorem fst_run_loadInstance_toJson {i : Instance} (hrange : i.id.inRange = true) (room : Nat)
    (log : IdLog) : ((loadInstance room i.toJson).run log).1 =
      if i.Loadable room then .ok i else .error .malformed := by
  rw [run_loadInstance, Instance.ofJson?_toJson]
  by_cases h : i.Loadable room
  · simp [h, IdRegister.reserve?, hrange]
  · simp [h]

theorem loadNode_toJson (room : Nat) (id : InstanceId) (i : Instance) :
    (loadNode room (GraphNode.mk id (some i)).toJson : Load IdLog GraphNode) =
      loadInstance (room - 1) i.toJson >>= fun i => pure ⟨id, some i⟩ := by
  have hstate : (loadState (room - 1) i.toJson : Load IdLog (Option Instance)) =
      some <$> loadInstance (room - 1) i.toJson := rfl
  simp [GraphNode.toJson, Json.ofMembers, loadNode, loadNodeMembers, InstanceId.ofJson?_toJson,
    hstate]

theorem fst_run_loadNode_toJson {n : GraphNode}
    (hrange : ∀ i, n.state = some i → i.id.inRange = true) (room : Nat) (log : IdLog) :
    ((loadNode room n.toJson).run log).1 =
      if n.Loadable room then .ok n else .error .malformed := by
  obtain ⟨id, state⟩ := n
  cases state with
  | none =>
    have hplaceholder : (loadNode room (GraphNode.mk id none).toJson : Load IdLog GraphNode) =
        pure ⟨id, none⟩ := by
      simp [GraphNode.toJson, Json.ofMembers, loadNode, loadNodeMembers, InstanceId.ofJson?_toJson]
    have hloadable : (GraphNode.mk id none).Loadable room := by simp [GraphNode.Loadable]
    rw [hplaceholder, if_pos hloadable]
    rfl
  | some i =>
    have hloadable : (GraphNode.mk id (some i)).Loadable room ↔ i.Loadable (room - 1) := by
      simp [GraphNode.Loadable]
    rw [loadNode_toJson, fst_run_bind, fst_run_loadInstance_toJson (hrange i rfl)]
    by_cases h : i.Loadable (room - 1)
    · rw [if_pos h, if_pos (hloadable.2 h)]
      rfl
    · rw [if_neg h, if_neg (mt hloadable.1 h)]

theorem fst_run_loadNodes_toJson {ns : List GraphNode}
    (hrange : ∀ n ∈ ns, ∀ i, n.state = some i → i.id.inRange = true) (room : Nat) (log : IdLog) :
    ((loadNodes room (.array (ns.map GraphNode.toJson))).run log).1 =
      if ∀ n ∈ ns, n.Loadable (room - 1) then .ok ns else .error .malformed := by
  rw [loadNodes]
  induction ns generalizing log with
  | nil => rfl
  | cons n ns ih =>
    have hn := fst_run_loadNode_toJson (hrange n List.mem_cons_self) (room - 1) log
    have ih := ih (fun m hm => hrange m (List.mem_cons_of_mem n hm))
    rw [List.map_cons, List.mapM_cons, fst_run_bind, hn]
    by_cases h : n.Loadable (room - 1)
    · simp only [if_pos h]
      rw [fst_run_bind, ih]
      by_cases hns : ∀ m ∈ ns, m.Loadable (room - 1)
      · rw [if_pos hns, if_pos (List.forall_mem_cons.2 ⟨h, hns⟩)]
        rfl
      · rw [if_neg hns, if_neg fun hall => hns (List.forall_mem_cons.1 hall).2]
    · rw [if_neg h, if_neg fun hall => h (List.forall_mem_cons.1 hall).1]

theorem fst_run_loadDocument_toJson {g : Graph}
    (hrange : ∀ n ∈ g.nodes, ∀ i, n.state = some i → i.id.inRange = true) (room : Nat)
    (log : IdLog) : ((loadDocument room g.toJson).run log).1 =
      if ∀ n ∈ g.nodes, n.Loadable (room - 1 - 1) then .ok g else .error .malformed := by
  have hedges := Json.toList?_array_map_of_all fun e (_ : e ∈ g.edges) => e.ofJson?_toJson
  have hdocument : (loadDocument room g.toJson : Load IdLog Graph) =
      loadNodes (room - 1) (.array (g.nodes.map GraphNode.toJson)) >>= fun nodes =>
        pure ⟨nodes, g.edges⟩ := by
    simp [Graph.toJson, Json.ofMembers, loadDocument, loadGraphMembers, hedges]
  rw [hdocument, fst_run_bind, fst_run_loadNodes_toJson hrange]
  by_cases h : ∀ n ∈ g.nodes, n.Loadable (room - 1 - 1)
  · rw [if_pos h, if_pos h]
    rfl
  · rw [if_neg h, if_neg h]

end Load

namespace Graph

/-- Nodes that carry their own instances under distinct ids in range are accepted. -/
theorem fst_acceptNodes {before ns : List GraphNode}
    (hids : ((before ++ ns).map (·.id)).Nodup)
    (hstates : ∀ n ∈ ns, ∀ i, n.state = some i → i.id = n.id)
    (hrange : ∀ n ∈ ns, n.id.inRange = true) (log : IdLog) :
    (acceptNodes before log ns).1 = .ok (before ++ ns) := by
  induction ns generalizing before log with
  | nil => simp [acceptNodes]
  | cons n ns ih =>
    have hstate : n.state.filter (·.id != n.id) = none := by
      cases hn : n.state with
      | none => rfl
      | some i => simp [Option.filter, hstates n List.mem_cons_self i hn]
    have hnew : before.any (·.id == n.id) = false := by
      rw [List.map_append, List.nodup_append] at hids
      simp only [List.any_eq_false, beq_iff_eq]
      intro m hm hid
      exact hids.2.2 m.id (List.mem_map_of_mem hm) n.id (by simp) hid
    simp only [acceptNodes, hstate, IdRegister.reserve?, hrange n List.mem_cons_self, dif_pos, hnew]
    rw [if_neg Bool.false_ne_true,
      ih (by simpa using hids) (fun m hm => hstates m (List.mem_cons_of_mem n hm))
        fun m hm => hrange m (List.mem_cons_of_mem n hm)]
    simp

/-- A document passes the checks as it is. -/
theorem fst_ofDocument {g : Graph} (hlinked : g.Linked)
    (hrange : ∀ n ∈ g.nodes, n.id.inRange = true) (log : IdLog) : (ofDocument g log).1 = .ok g := by
  have haccept : (acceptNodes [] log g.nodes).1 = .ok ([] ++ g.nodes) := by
    refine fst_acceptNodes ?_ hlinked.states hrange log
    exact hlinked.ids
  have hstray : g.strayEnd? = none := by
    rw [strayEnd?, List.find?_eq_none]
    simp only [List.forall_mem_flatMap, List.forall_mem_cons]
    intro e he
    obtain ⟨hsource, htarget⟩ := hlinked.ends e he
    simp [hsource, htarget]
  unfold ofDocument
  cases hrun : acceptNodes [] log g.nodes with
  | mk r log =>
    rw [hrun] at haccept
    obtain rfl : r = .ok g.nodes := haccept
    simp [hstray]

variable {g : Graph}

/-- **A graph loaded from its own text** is the graph itself, or the text is malformed because an
instance cannot be loaded. -/
theorem fst_load_text (hlinked : g.Linked) (hrange : ∀ n ∈ g.nodes, n.id.inRange = true)
    (counter : Counter) : (Graph.load g.text counter).1 =
      if ∀ n ∈ g.nodes, n.Loadable (nestingLimit - 1 - 1) then .ok g
      else .error (.json .malformed) := by
  have hplain : g.toJson.Plain fun _ => True := Graph.plain_toJson (by simp) (by simp)
  have hread : Json.read g.text = ⟨g.toJson, true⟩ := Json.read_pretty hplain
  have hinstances : ∀ n ∈ g.nodes, ∀ i, n.state = some i → i.id.inRange = true := by
    intro n hn i hi
    rw [hlinked.states n hn i hi]
    exact hrange n hn
  have hdocument := Load.fst_run_loadDocument_toJson hinstances nestingLimit {}
  have htext : (Load.loadText (Load.loadDocument nestingLimit) g.text : Load IdLog Graph) =
      Load.loadDocument nestingLimit g.toJson := by
    simp [Load.loadText, hread]
  rw [load_eq]
  simp only [loadInto, htext]
  cases hrun : (Load.loadDocument nestingLimit g.toJson).run ({} : IdLog) with
  | mk r log =>
    rw [hrun] at hdocument
    simp only at hdocument
    split at hdocument
    · rename_i hloadable
      rw [hdocument, if_pos hloadable]
      exact fst_ofDocument hlinked hrange log
    · rename_i hloadable
      rw [hdocument, if_neg hloadable]

/-- Nodes of a graph that does not nest too deep can be loaded when all numbers are words. -/
theorem loadable_of_nesting {room : Nat} (hnesting : g.toJson.nesting ≤ room)
    (hwords : Words g.indices) : ∀ n ∈ g.nodes, n.Loadable (room - 1 - 1) := by
  intro n hn i hi
  obtain ⟨-, hnesting⟩ := Json.nesting_ofMembers_le.1 hnesting
  have hnodes := hnesting ("nodes", .array (g.nodes.map GraphNode.toJson)) (by simp)
  obtain ⟨-, hnodes⟩ := Json.nesting_array_le.1 hnodes
  obtain ⟨-, hnode⟩ := Json.nesting_ofMembers_le.1 (hnodes n.toJson (List.mem_map_of_mem hn))
  have hi : n.state = some i := hi
  exact Instance.loadable (hnode ("instance", i.toJson) (by simp [hi]))
    fun k hk => hwords k (mem_indices hn hi hk)

/-- **A graph is loaded back from its own text**, with its nodes, its edges and their order, and the
counter then stands above all of its ids. -/
theorem load_text (hlinked : g.Linked) (hrange : ∀ id, g.contains id = true → id.inRange = true)
    (hwords : Words g.indices) (hnesting : g.toJson.nesting ≤ nestingLimit) (counter : Counter) :
    ∃ counter' : Counter, Graph.load g.text counter = (.ok g, counter') ∧
      counter.next ≤ counter'.next ∧
      ∀ id, g.contains id = true → id.number < counter'.next := by
  have hloaded : (Graph.load g.text counter).1 = .ok g := by
    rw [fst_load_text hlinked fun n hn => hrange n.id (contains_iff.2 (List.mem_map_of_mem hn))]
    exact if_pos (loadable_of_nesting hnesting hwords)
  have hreserved := (linked_of_load hloaded).2
  have hrange : ∀ id ∈ Graph.reservedBy g.text, id.inRange = true :=
    fun id hid => Graph.inRange_of_mem_reservedBy hid
  obtain ⟨hraised, -, habove⟩ := @Counter.toNat_reserveAll counter _ hrange
  refine ⟨counter.reserveAll (Graph.reservedBy g.text), ?_, UInt64.le_iff_toNat_le.2 hraised, ?_⟩
  · rw [load_eq] at hloaded ⊢
    rw [hloaded]
  · intro id hid
    obtain ⟨n, hn, rfl⟩ := List.mem_map.1 (contains_iff.1 hid)
    exact UInt64.lt_iff_toNat_lt.2 (habove n.id (hreserved n hn))

/-- An instance under the largest id, with a choice inside a choice whose selection is the largest
word, a text to escape, and members of every kind both there and left out. -/
def forked : Instance where
  id := ⟨InstanceId.maxNumber⟩
  template :=
    { name := "Fork", base := some "", kinds := ["fork"], typeComment := some "one\ntwo",
      fields := [.ofSpec { name := "Left", declaredType := "ExpressionSyntax", minCount := 2 }] }
  fields := [.ofSpec { name := "Left", declaredType := "ExpressionSyntax", kinds := ["leaf"] },
    .choice (some "Either") true
      [.choice none false [] (2 ^ 64 - 1),
        .sequence [.single { name := "Sign", declaredType := "SyntaxToken" } (some "\"ä\\\x01"),
          .single { name := "End", declaredType := "SyntaxToken", comment := some "" } none]] 1]

/-- The instance with two placeholders below it, one of them twice. -/
def fork : Graph where
  nodes := [⟨⟨7⟩, none⟩, ⟨forked.id, some forked⟩, ⟨⟨0⟩, none⟩]
  edges := [⟨forked.id, "Left", ⟨7⟩⟩, ⟨forked.id, "", ⟨0⟩⟩, ⟨forked.id, "Left", ⟨7⟩⟩]

theorem load_text_fork : ∃ counter' : Counter,
    Graph.load fork.text ⟨1⟩ = (.ok fork, counter') ∧ InstanceId.maxNumber < counter'.next := by
  have hlinked : fork.Linked := by
    refine ⟨by decide, ?_, by decide⟩
    simp [fork]
  have hrange : ∀ id, fork.contains id = true → id.inRange = true := by
    intro id hid
    have hall : ∀ k ∈ fork.nodes.map (·.id), k.inRange = true := by decide
    exact hall id (contains_iff.1 hid)
  obtain ⟨counter', hload, -, habove⟩ :=
    load_text hlinked hrange (by decide) (by decide) ⟨1⟩
  exact ⟨counter', hload, habove forked.id (by decide)⟩

end Graph

end SyntaxGraph
