import Mathlib.Data.List.Induction
import SyntaxGraph.Proofs.Graph.Json

/-!
# Documents that are loaded

A text that can be read is a document: nodes and edges that are not yet checked against each other.
The reader has then reserved the ids of the instances of the document, and of nothing else. The
checks go through the nodes and then through the edges; each node is compared with those before it
and its id is reserved.

The main statement says what comes of a document. It is loaded as it is when it is linked and its
ids are in range. If not, the error is that of the first node that offends against those before it,
or else of the first end of an edge that is no node, and the nodes before the offending one are
those whose ids are reserved.
-/

namespace SyntaxGraph

/-! ### What reading reserves -/

namespace Load

/-- What a program answers, and what it reserves before, when it succeeds. -/
def Yields (x : Load IdLog α) (P : α → List InstanceId → Prop) : Prop :=
  ∀ log a log', x.run log = (.ok a, log') → ∃ ids, log'.ids = log.ids ++ ids ∧ P a ids

section Yields

variable {P : α → List InstanceId → Prop} {Q : β → List InstanceId → Prop}

theorem Yields.pure {a : α} (h : P a []) : Yields (pure a) P := by
  intro log b log' hrun
  rw [run_pure] at hrun
  obtain ⟨hb, rfl⟩ := Prod.mk.inj hrun
  obtain rfl := Except.ok.inj hb
  exact ⟨[], (List.append_nil _).symm, h⟩

theorem Yields.throw (e : Graph.JsonFault) : Yields (throw e) P := by
  intro log a log' hrun
  exact nomatch hrun

theorem Yields.bind {x : Load IdLog α} {f : α → Load IdLog β} (hx : Yields x P)
    (hf : ∀ a ids, P a ids → Yields (f a) fun b more => Q b (ids ++ more)) :
    Yields (x >>= f) Q := by
  intro log b log' hrun
  obtain ⟨a, log₁, hx₁, hf₁⟩ := exists_of_run_bind_eq_ok hrun
  obtain ⟨ids, hids, ha⟩ := hx log a log₁ hx₁
  obtain ⟨more, hmore, hb⟩ := hf a ids ha log₁ b log' hf₁
  exact ⟨ids ++ more, by rw [hmore, hids, List.append_assoc], hb⟩

theorem Yields.mono {P' : α → List InstanceId → Prop} {x : Load IdLog α} (hx : Yields x P)
    (h : ∀ a ids, P a ids → P' a ids) : Yields x P' := by
  intro log a log' hrun
  obtain ⟨ids, hids, ha⟩ := hx log a log' hrun
  exact ⟨ids, hids, h a ids ha⟩

theorem Yields.expect (a : Option α) :
    Yields (Load.expect a) fun b ids => a = some b ∧ ids = [] := by
  cases a with
  | none => exact .throw _
  | some a => exact .pure ⟨rfl, rfl⟩

end Yields

/-- The ids of an instance that may be missing. -/
def stateIds (state : Option Instance) : List InstanceId :=
  state.toList.map (·.id)

theorem yields_loadInstance (room : Nat) (j : Json) :
    Yields (loadInstance room j) fun i ids => ids = [i.id] := by
  intro log i log' hrun
  rw [run_loadInstance] at hrun
  cases hread : Instance.ofJson? room j with
  | none =>
    rw [hread] at hrun
    exact nomatch hrun
  | some k =>
    simp only [hread] at hrun
    cases hlog : IdRegister.reserve? log k.id with
    | none =>
      rw [hlog] at hrun
      exact nomatch hrun
    | some log₁ =>
      rw [hlog] at hrun
      obtain ⟨hk, rfl⟩ := Prod.mk.inj hrun
      obtain rfl := Except.ok.inj hk
      exact ⟨[k.id], IdLog.reserve?_eq_some hlog, rfl⟩

theorem yields_loadState (room : Nat) (j : Json) :
    Yields (loadState room j) fun state ids => ids = stateIds state := by
  cases j with
  | null => exact .pure rfl
  | _ =>
    simp only [loadState, map_eq_pure_bind]
    refine (yields_loadInstance room _).bind fun i ids hids => .pure ?_
    rw [hids]
    rfl

/-- The members of a node reserve the id of its instance, if they are the ones that hold it. -/
theorem yields_loadNodeMembers (room : Nat) (ms : List (Option String × Json)) (parts : NodeParts) :
    Yields (loadNodeMembers room parts ms) fun n ids =>
      stateIds (parts.state.getD none) ++ ids = stateIds n.state := by
  induction ms generalizing parts with
  | nil =>
    refine (Yields.expect parts.id).bind fun id ids hids => .pure ?_
    rw [hids.2, List.append_nil, List.append_nil]
  | cons m ms ih =>
    obtain ⟨key, j⟩ := m
    cases key with
    | none => exact .throw _
    | some key =>
      simp only [loadNodeMembers]
      split
      · split
        · exact .throw _
        · refine (Yields.expect _).bind fun id ids hids => ?_
          rw [hids.2]
          exact ih _
      · split
        · split
          · exact .throw _
          · rename_i hfree
            have hnone : parts.state = none := by simpa using hfree
            refine (yields_loadState room j).bind fun state ids hids => ?_
            refine (ih _).mono fun n more hn => ?_
            rw [hids, hnone]
            exact hn
        · split
          · exact ih _
          · exact .throw _

theorem yields_loadNode (room : Nat) (j : Json) :
    Yields (loadNode room j) fun n ids => ids = stateIds n.state := by
  unfold loadNode
  split
  · exact yields_loadNodeMembers _ _ _
  · refine (Yields.expect _).bind fun id ids hids => .pure ?_
    rw [hids.2]
    rfl
  · refine (Yields.expect _).bind fun id ids hids => ?_
    refine (yields_loadState _ _).bind fun state more hmore => ?_
    split
    · refine .pure ?_
      rw [hids.2, hmore, List.append_nil]
      rfl
    · exact .throw _
  · exact .throw _

end Load

/-- The ids of the instances of a graph, in the order of its nodes. -/
def Graph.instanceIds (g : Graph) : List InstanceId :=
  g.nodes.flatMap fun n => Load.stateIds n.state

namespace Load

theorem yields_loadNodes (room : Nat) (j : Json) :
    Yields (loadNodes room j) fun ns ids => ids = ns.flatMap fun n => stateIds n.state := by
  unfold loadNodes
  split
  · rename_i xs
    induction xs with
    | nil =>
      rw [List.mapM_nil]
      exact .pure rfl
    | cons x xs ih =>
      rw [List.mapM_cons]
      refine (yields_loadNode _ x).bind fun n ids hids => ih.bind fun ns more hmore => .pure ?_
      rw [hids, hmore, List.append_nil, List.flatMap_cons]
  · exact .throw _

theorem yields_loadGraphMembers (room : Nat) (ms : List (Option String × Json))
    (parts : GraphParts) : Yields (loadGraphMembers room parts ms) fun g ids =>
      ((parts.nodes.getD []).flatMap fun n => stateIds n.state) ++ ids = g.instanceIds := by
  induction ms generalizing parts with
  | nil =>
    refine (Yields.expect parts.nodes).bind fun nodes ids hids => .pure ?_
    rw [hids.1, hids.2, List.append_nil, List.append_nil]
    rfl
  | cons m ms ih =>
    obtain ⟨key, j⟩ := m
    cases key with
    | none => exact .throw _
    | some key =>
      simp only [loadGraphMembers]
      split
      · split
        · exact .throw _
        · rename_i hfree
          have hnone : parts.nodes = none := by simpa using hfree
          refine (yields_loadNodes room j).bind fun nodes ids hids => ?_
          refine (ih _).mono fun g more hg => ?_
          rw [hids, hnone]
          exact hg
      · split
        · split
          · exact .throw _
          · refine (Yields.expect _).bind fun edges ids hids => ?_
            rw [hids.2]
            exact ih _
        · split
          · exact ih _
          · exact .throw _

/-- **Reading a document reserves the ids of its instances**, in the order of its nodes. -/
theorem yields_loadDocument (room : Nat) (j : Json) :
    Yields (loadDocument room j) fun g ids => ids = g.instanceIds := by
  unfold loadDocument
  split
  · exact yields_loadGraphMembers _ _ _
  · refine (yields_loadNodes _ _).bind fun nodes ids hids => .pure ?_
    rw [hids, List.append_nil]
    rfl
  · refine (yields_loadNodes _ _).bind fun nodes ids hids => ?_
    refine (Yields.expect _).bind fun edges more hmore => ?_
    split
    · refine .pure ?_
      rw [hids, hmore.2, List.append_nil, List.append_nil]
      rfl
    · exact .throw _
  · exact .throw _

theorem yields_loadText {f : Json → Load IdLog α} {P : α → List InstanceId → Prop}
    (hf : ∀ j, Yields (f j) P) (source : String) : Yields (loadText f source) P := by
  refine (hf _).bind fun a ids ha => ?_
  split
  · refine .pure ?_
    rwa [List.append_nil]
  · exact .throw _

end Load

theorem IdLog.inRange_nil : ∀ id ∈ ([] : List InstanceId), id.inRange = true :=
  List.forall_mem_nil _

/-- The document that a text is read as. -/
def Graph.decode (source : String) : Except Graph.JsonFault Graph :=
  ((Load.loadText (Load.loadDocument Graph.nestingLimit) source).run
    (⟨[], IdLog.inRange_nil⟩ : IdLog)).1

/-- A text that is read as a document is loaded by checking the document, with the ids of its
instances already reserved. These are in range. -/
theorem Graph.load_of_decode {source : String} {document : Graph}
    (h : Graph.decode source = .ok document) (counter : Counter) :
    Graph.load source counter =
        Graph.ofDocument document (counter.reserveAll document.instanceIds) ∧
      ∀ id ∈ document.instanceIds, id.inRange = true := by
  have hread := Load.Parallel.loadText
    (Load.Parallel.loadDocument counter.hom_reserveAll Graph.nestingLimit) source {}
  unfold Graph.decode at h
  cases hrun : (Load.loadText (Load.loadDocument Graph.nestingLimit) source).run ({} : IdLog) with
  | mk r log =>
    rw [hrun] at h hread
    obtain rfl : r = .ok document := h
    obtain ⟨ids, hids, rfl⟩ :=
      Load.yields_loadText (Load.yields_loadDocument Graph.nestingLimit) source {} document log hrun
    have hids : log.ids = document.instanceIds := hids
    rw [← hids]
    refine ⟨?_, log.inRange⟩
    unfold Graph.load Graph.loadInto
    rw [show counter = counter.reserveAll ({} : IdLog).ids from rfl, hread]
    rfl

namespace Graph

/-! ### The checks -/

/-- The nodes carry their own instances, under distinct ids in range. -/
structure Faultless (ns : List GraphNode) : Prop where
  own : ∀ n ∈ ns, ∀ i, n.state = some i → i.id = n.id
  inRange : ∀ n ∈ ns, n.id.inRange = true
  distinct : (ns.map (·.id)).Nodup

/-- What is wrong with a node that comes after others. The first of these counts: it carries the
instance of another node, its id is out of range, or its id is that of a node before it. -/
inductive NodeFault (before : List GraphNode) (n : GraphNode) : Error → Prop where
  | foreign {i : Instance} (hi : n.state = some i) (hid : i.id ≠ n.id) :
    NodeFault before n (.json (.foreignState n.id i.id))
  | outOfRange (hown : ∀ i, n.state = some i → i.id = n.id) (hrange : n.id.inRange = false) :
    NodeFault before n (.idOutOfRange n.id)
  | duplicate (hown : ∀ i, n.state = some i → i.id = n.id) (hrange : n.id.inRange = true)
    (hid : n.id ∈ before.map (·.id)) : NodeFault before n (.json .duplicateNode)

/-- What comes of a document, and the nodes whose ids are reserved on the way. -/
inductive Verdict (document : Graph) : List GraphNode → Except Error Graph → Prop where
  /-- A node offends, and none of those before it does. -/
  | node {before after : List GraphNode} {n : GraphNode} {err : Error}
    (hnodes : document.nodes = before ++ n :: after) (hbefore : Faultless before)
    (hfault : NodeFault before n err) : Verdict document before (.error err)
  /-- No node offends, but an end of an edge does, and none of those before it. -/
  | edge (hnodes : Faultless document.nodes) {before after : List InstanceId} {id : InstanceId}
    (hends : (document.edges.flatMap fun e => [e.source, e.target]) = before ++ id :: after)
    (hbefore : ∀ k ∈ before, document.contains k = true) (hid : document.contains id = false) :
    Verdict document document.nodes (.error (.unknownNode id))
  /-- Nothing offends. -/
  | accepted (hnodes : Faultless document.nodes)
    (hends : ∀ e ∈ document.edges,
      document.contains e.source = true ∧ document.contains e.target = true) :
    Verdict document document.nodes (.ok document)

theorem filter_state_eq_none_iff {n : GraphNode} :
    n.state.filter (·.id != n.id) = none ↔ ∀ i, n.state = some i → i.id = n.id := by
  rw [Option.filter_eq_none_iff]
  exact forall₂_congr fun i _ => by rw [bne_iff_ne, not_not]

theorem faultless_nil : Faultless [] :=
  ⟨by simp, by simp, List.nodup_nil⟩

/-- A node after faultless ones has a fault, or they stay faultless with it. -/
theorem Faultless.append_or {ns : List GraphNode} (h : Faultless ns) (n : GraphNode) :
    Faultless (ns ++ [n]) ∨ ∃ err, NodeFault ns n err := by
  by_cases hown : ∀ i, n.state = some i → i.id = n.id
  · cases hrange : n.id.inRange with
    | false => exact .inr ⟨_, .outOfRange hown hrange⟩
    | true =>
      by_cases hid : n.id ∈ ns.map (·.id)
      · exact .inr ⟨_, .duplicate hown hrange hid⟩
      · refine .inl ⟨?_, ?_, ?_⟩
        · simpa [or_imp, forall_and] using ⟨h.own, hown⟩
        · simpa [or_imp, forall_and] using ⟨h.inRange, hrange⟩
        · rw [List.map_append, List.map_singleton]
          exact h.distinct.append (List.nodup_singleton _) (by simpa using hid)
  · obtain ⟨i, hi, hid⟩ : ∃ i, n.state = some i ∧ i.id ≠ n.id := by simpa using hown
    exact .inr ⟨_, .foreign hi hid⟩

/-- Of any nodes, none offends or there is a first one that does. -/
theorem faultless_or (ns : List GraphNode) :
    Faultless ns ∨ ∃ before n after err,
      ns = before ++ n :: after ∧ Faultless before ∧ NodeFault before n err := by
  induction ns using List.reverseRecOn with
  | nil => exact .inl faultless_nil
  | append_singleton ns n ih =>
    -- from the end of the list, since the nodes before one are what it is compared with
    rcases ih with hns | ⟨before, m, after, err, rfl, hbefore, hfault⟩
    · rcases hns.append_or n with hall | ⟨err, hfault⟩
      · exact .inl hall
      · exact .inr ⟨ns, n, [], err, rfl, hns, hfault⟩
    · exact .inr ⟨before, m, after ++ [n], err, by simp, hbefore, hfault⟩

/-- There is a verdict on every document. -/
theorem exists_verdict (document : Graph) : ∃ ns r, Verdict document ns r := by
  rcases faultless_or document.nodes with hnodes | ⟨before, n, after, err, hsplit, hbefore, hfault⟩
  · cases hstray : document.strayEnd? with
    | none =>
      rw [strayEnd?, List.find?_eq_none] at hstray
      simp only [List.forall_mem_flatMap, List.forall_mem_cons] at hstray
      refine ⟨_, _, .accepted hnodes fun e he => ?_⟩
      exact ⟨by simpa using (hstray e he).1, by simpa using (hstray e he).2.1⟩
    | some id =>
      obtain ⟨hid, before, after, hends, hbefore⟩ := List.find?_eq_some_iff_append.1 hstray
      refine ⟨_, _, .edge hnodes hends (fun k hk => ?_) (by simpa using hid)⟩
      simpa using hbefore k hk
  · exact ⟨_, _, .node hsplit hbefore hfault⟩

theorem Verdict.faultless {document : Graph} {ns : List GraphNode} {r : Except Error Graph}
    (h : Verdict document ns r) : Faultless ns := by
  cases h with
  | node _ hbefore _ => exact hbefore
  | edge hnodes _ _ _ => exact hnodes
  | accepted hnodes _ => exact hnodes

/-! ### Checking -/

theorem acceptNodes_append {before ns : List GraphNode} (h : Faultless (before ++ ns))
    (rest : List GraphNode) (counter : Counter) :
    acceptNodes before counter (ns ++ rest) =
      acceptNodes (before ++ ns) (counter.reserveAll (ns.map (·.id))) rest := by
  induction ns generalizing before counter with
  | nil => rw [List.nil_append, List.append_nil, List.map_nil]; rfl
  | cons n ns ih =>
    have hn : n ∈ before ++ n :: ns := by simp
    have hown := filter_state_eq_none_iff.2 (h.own n hn)
    have hfree : before.any (·.id == n.id) = false := by
      have hdistinct := h.distinct
      rw [List.map_append, List.nodup_append] at hdistinct
      rw [List.any_eq_false]
      intro m hm hid
      exact hdistinct.2.2 m.id (List.mem_map_of_mem hm) n.id (by simp) (by simpa using hid)
    have hreserve : IdRegister.reserve? counter n.id =
        some ((counter.reserve? n.id).getD counter) := by
      obtain ⟨counter', hsome⟩ := Option.isSome_iff_exists.1
        ((counter.reserve?_isSome n.id).trans (h.inRange n hn))
      rw [hsome]
      exact hsome
    rw [List.cons_append, acceptNodes, hown]
    simp only [hreserve, hfree]
    rw [if_neg Bool.false_ne_true, ih (by simpa using h), List.append_assoc]
    rfl

theorem acceptNodes_of_faultless {ns : List GraphNode} (h : Faultless ns) (rest : List GraphNode)
    (counter : Counter) : acceptNodes [] counter (ns ++ rest) =
      acceptNodes ns (counter.reserveAll (ns.map (·.id))) rest := by
  have h : Faultless ([] ++ ns) := h
  rw [acceptNodes_append h, List.nil_append]

/-- A faulty node is refused with its fault, and reserves nothing that is not reserved. -/
theorem acceptNodes_of_fault {before after : List GraphNode} {n : GraphNode} {err : Error}
    (hfault : NodeFault before n err) {counter : Counter}
    (habove : ∀ m ∈ before, m.id.number.toNat < counter.next.toNat) :
    acceptNodes before counter (n :: after) = (.error err, counter) := by
  cases hfault with
  | @foreign i hi hid =>
    have hforeign : n.state.filter (·.id != n.id) = some i := by simp [hi, hid]
    rw [acceptNodes, hforeign]
  | outOfRange hown hrange =>
    have hreserve : IdRegister.reserve? counter n.id = none := by
      simp [IdRegister.reserve?, Counter.reserve?, hrange]
    rw [acceptNodes, filter_state_eq_none_iff.2 hown]
    simp only [hreserve]
  | duplicate hown hrange hid =>
    obtain ⟨m, hm, hmn⟩ := List.mem_map.1 hid
    -- the id was reserved with the node before, so reserving it again changes nothing
    have hreserve : IdRegister.reserve? counter n.id = some counter :=
      Counter.reserve?_of_lt hrange (hmn ▸ habove m hm)
    have hany : before.any (·.id == n.id) = true := by
      rw [List.any_eq_true]
      exact ⟨m, hm, by simpa using hmn⟩
    rw [acceptNodes, filter_state_eq_none_iff.2 hown]
    simp only [hreserve, hany, if_true]

/-- **A document gets its verdict**, and reserves the ids that belong to it. -/
theorem ofDocument_of_verdict {document : Graph} {ns : List GraphNode} {r : Except Error Graph}
    (h : Verdict document ns r) (counter : Counter) :
    ofDocument document counter = (r, counter.reserveAll (ns.map (·.id))) := by
  have hall : Faultless document.nodes → acceptNodes [] counter document.nodes =
      (.ok document.nodes, counter.reserveAll (document.nodes.map (·.id))) := by
    intro hnodes
    have haccept := acceptNodes_of_faultless hnodes [] counter
    rwa [List.append_nil] at haccept
  cases h with
  | @node _ after n err hnodes hbefore hfault =>
    have habove : ∀ m ∈ ns,
        m.id.number.toNat < (counter.reserveAll (ns.map (·.id))).next.toNat := by
      have hrange : ∀ id ∈ ns.map (·.id), id.inRange = true := by simpa using hbefore.inRange
      exact fun m hm => (Counter.toNat_reserveAll hrange).2.2 m.id (List.mem_map_of_mem hm)
    unfold ofDocument
    rw [hnodes, acceptNodes_of_faultless hbefore, acceptNodes_of_fault hfault habove]
  | @edge hnodes before after id hends hbefore hid =>
    have hstray : document.strayEnd? = some id := by
      rw [strayEnd?, hends, List.find?_append, List.find?_eq_none.2 (by simpa using hbefore)]
      simp [hid]
    unfold ofDocument
    rw [hall hnodes]
    simp only [hstray]
  | accepted hnodes hends =>
    have hstray : document.strayEnd? = none := by
      rw [strayEnd?, List.find?_eq_none]
      simp only [List.forall_mem_flatMap, List.forall_mem_cons]
      intro e he
      obtain ⟨hsource, htarget⟩ := hends e he
      simp [hsource, htarget]
    unfold ofDocument
    rw [hall hnodes]
    simp only [hstray]

/-- A document is accepted when it is linked and its ids are in range. -/
theorem verdict_ok_iff {document : Graph} :
    (∃ ns g, Verdict document ns (.ok g)) ↔
      document.Linked ∧ ∀ n ∈ document.nodes, n.id.inRange = true := by
  constructor
  · rintro ⟨ns, g, h⟩
    cases h with
    | accepted hnodes hends => exact ⟨⟨hnodes.distinct, hnodes.own, hends⟩, hnodes.inRange⟩
  · rintro ⟨hlinked, hrange⟩
    exact ⟨_, _, .accepted ⟨hlinked.states, hrange, hlinked.ids⟩ hlinked.ends⟩

/-- **What comes of a document.** Let a text be read as a document. Loading the text answers the one
verdict on the document, and it succeeds exactly when the document is linked and the ids of its
nodes are in range. In any case the counter ends as the largest of what it was and the numbers after
the ids of the instances and after the ids of the nodes that are before the offending one, or of all
nodes when none offends. -/
theorem load_document {source : String} {document : Graph} (h : decode source = .ok document)
    (counter : Counter) :
    ((∃ g, (load source counter).1 = .ok g) ↔
      document.Linked ∧ ∀ n ∈ document.nodes, n.id.inRange = true) ∧
    (∃ ns, Verdict document ns (load source counter).1 ∧
      (counter.next.toNat ::
        (document.instanceIds ++ ns.map (·.id)).map (·.number.toNat + 1)).max? =
          some (load source counter).2.next.toNat) ∧
    (∀ ns r, Verdict document ns r → (load source counter).1 = r) ∧
    counter.next ≤ (load source counter).2.next := by
  obtain ⟨hload, hinstances⟩ := load_of_decode h counter
  have hverdict : ∀ ns r, Verdict document ns r → load source counter =
      (r, counter.reserveAll (document.instanceIds ++ ns.map (·.id))) := by
    intro ns r hr
    rw [hload, ofDocument_of_verdict hr, Counter.reserveAll, Counter.reserveAll, Counter.reserveAll,
      List.foldl_append]
  obtain ⟨ns, r, hr⟩ := exists_verdict document
  have hanswer := hverdict ns r hr
  have hrange : ∀ id ∈ document.instanceIds ++ ns.map (·.id), id.inRange = true :=
    List.forall_mem_append.2 ⟨hinstances, List.forall_mem_map.2 hr.faultless.inRange⟩
  refine ⟨?_, ⟨ns, by rwa [hanswer], ?_⟩, fun ns r hr => by rw [hverdict ns r hr], ?_⟩
  · rw [hanswer, ← verdict_ok_iff]
    constructor
    · rintro ⟨g, hg⟩
      obtain rfl : r = .ok g := hg
      exact ⟨ns, g, hr⟩
    · rintro ⟨ms, g, hg⟩
      have hsame := hverdict ms (.ok g) hg
      rw [hanswer] at hsame
      exact ⟨g, congrArg Prod.fst hsame⟩
  · rw [hanswer, List.max?_cons', Counter.toNat_reserveAll_eq hrange]
  · rw [hanswer]
    exact UInt64.le_iff_toNat_le.2 (Counter.toNat_reserveAll hrange).1

/-- The instance of `forked` between two nodes with one id, and a node after them that nothing looks
at. -/
def doubled : Graph where
  nodes := [⟨⟨7⟩, none⟩, ⟨forked.id, some forked⟩, ⟨⟨7⟩, none⟩, ⟨⟨18446744073709551615⟩, none⟩]
  edges := [⟨⟨8⟩, "Left", ⟨9⟩⟩]

theorem load_document_doubled : decode doubled.text = .ok doubled ∧
    (load doubled.text ⟨1⟩).1 = .error (.json .duplicateNode) := by
  have hplain : doubled.toJson.Plain fun _ => True := Graph.plain_toJson (by simp) (by simp)
  have hread : Json.read doubled.text = ⟨doubled.toJson, true⟩ := Json.read_pretty hplain
  have hinstances : ∀ n ∈ doubled.nodes, ∀ i, n.state = some i → i.id.inRange = true := by
    have hforked : forked.id.inRange = true := by decide
    simpa [doubled] using hforked
  have hnesting : doubled.toJson.nesting ≤ nestingLimit := by decide
  have hdecode : decode doubled.text = .ok doubled := by
    have htext : (Load.loadText (Load.loadDocument nestingLimit) doubled.text : Load IdLog Graph) =
        Load.loadDocument nestingLimit doubled.toJson := by
      simp [Load.loadText, hread]
    rw [decode, htext, Load.fst_run_loadDocument_toJson hinstances,
      if_pos (loadable_of_nesting hnesting (by decide))]
  have hverdict : Verdict doubled [⟨⟨7⟩, none⟩, ⟨forked.id, some forked⟩]
      (.error (.json .duplicateNode)) := by
    refine .node (n := ⟨⟨7⟩, none⟩) rfl ⟨?_, by decide, by decide⟩ ?_
    · simp
    · exact .duplicate (by simp) (by decide) (by decide)
  exact ⟨hdecode, (load_document hdecode ⟨1⟩).2.2.1 _ _ hverdict⟩

end Graph

end SyntaxGraph
