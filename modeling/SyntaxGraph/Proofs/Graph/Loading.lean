import SyntaxGraph.Graph.Json
import SyntaxGraph.Proofs.Graph.Invariants
import SyntaxGraph.Proofs.Programs

/-!
# What loading reserves

Reading a text asks a register to reserve ids, and nothing else of it. So a counter fares like a log
that writes the reserved ids down, `IdLog`: a map between registers that reserves alike carries one
load over to the other. `reservedBy` is what a text makes the log write, also when the load fails, and
loading the text raises a counter above exactly these ids.

A graph that is loaded is `Linked`, and all of its ids are among the reserved ones.
-/

namespace SyntaxGraph

/-! ### Registers -/

namespace IdRegister

variable {σ τ : Type} [IdRegister σ] [IdRegister τ]

/-- The map reserves alike on both sides. -/
def Hom (h : σ → τ) : Prop :=
  ∀ s id, reserve? (h s) id = (reserve? s id).map h

end IdRegister

/-- The ids that were reserved, in order. -/
structure IdLog where
  ids : List InstanceId := []
  inRange : ∀ id ∈ ids, id.inRange = true := by simp

instance : IdRegister IdLog where
  reserve? log id :=
    if h : id.inRange = true then
      some ⟨log.ids ++ [id], fun k hk => (List.mem_append.1 hk).elim (log.inRange k)
        fun hk => List.mem_singleton.1 hk ▸ h⟩
    else none

theorem IdLog.reserve?_eq_some {log log' : IdLog} {id : InstanceId}
    (h : IdRegister.reserve? log id = some log') : log'.ids = log.ids ++ [id] := by
  simp only [IdRegister.reserve?] at h
  split at h
  · obtain rfl := Option.some.inj h
    rfl
  · simp at h

/-- Raising a counter above the ids of a log reserves like the log. -/
theorem Counter.hom_reserveAll (counter : Counter) :
    IdRegister.Hom fun log : IdLog => counter.reserveAll log.ids := by
  intro log id
  simp only [IdRegister.reserve?, Counter.reserve?]
  by_cases h : id.inRange = true
  · simp [h, reserveAll, Counter.reserve?]
  · simp [h]

/-! ### Loads along a map of registers -/

namespace Load

section Programs

variable {σ τ : Type} {h : σ → τ}

/-- The loads answer the same, and leave registers that the map carries into each other. -/
def Parallel (h : σ → τ) (x : Load σ α) (y : Load τ α) : Prop :=
  ∀ s, y.run (h s) = ((x.run s).1, h (x.run s).2)

theorem Parallel.pure (a : α) : Parallel h (pure a) (pure a) :=
  fun _ => rfl

theorem Parallel.throw (e : Graph.JsonFault) :
    Parallel h (throw e : Load σ α) (throw e : Load τ α) :=
  fun _ => rfl

theorem Parallel.bind {x : Load σ α} {y : Load τ α} {f : α → Load σ β} {k : α → Load τ β}
    (hx : Parallel h x y) (hf : ∀ a, Parallel h (f a) (k a)) :
    Parallel h (x >>= f) (y >>= k) := by
  intro s
  rw [run_bind, run_bind, hx s]
  cases hr : x.run s with
  | mk r s =>
    cases r with
    | error e => rfl
    | ok a => exact hf a s

theorem Parallel.expect (a : Option α) :
    Parallel h (Load.expect a : Load σ α) (Load.expect a : Load τ α) := by
  cases a with
  | none => exact .throw _
  | some a => exact .pure a

theorem Parallel.mapM {f : α → Load σ β} {k : α → Load τ β} (hf : ∀ a, Parallel h (f a) (k a))
    (as : List α) : Parallel h (as.mapM f) (as.mapM k) := by
  induction as with
  | nil =>
    rw [List.mapM_nil, List.mapM_nil]
    exact .pure _
  | cons a as ih =>
    rw [List.mapM_cons, List.mapM_cons]
    exact (hf a).bind fun b => ih.bind fun bs => .pure _

theorem Parallel.loadText {f : Json → Load σ α} {k : Json → Load τ α}
    (hf : ∀ j, Parallel h (f j) (k j)) (source : String) :
    Parallel h (Load.loadText f source) (Load.loadText k source) := by
  refine (hf _).bind fun a => ?_
  split
  · exact .pure a
  · exact .throw _

end Programs

section Registers

variable {σ τ : Type} [IdRegister σ] [IdRegister τ] {h : σ → τ}

theorem run_loadInstance (room : Nat) (j : Json) (s : σ) :
    (loadInstance room j).run s = match Instance.ofJson? room j with
      | none => (.error .malformed, s)
      | some i =>
        match IdRegister.reserve? s i.id with
        | some s => (.ok i, s)
        | none => (.error (.instanceOutOfRange i.id), s) := by
  unfold loadInstance
  rw [run_bind]
  cases Instance.ofJson? room j with
  | none => rfl
  | some i =>
    simp only [expect]
    change (match IdRegister.reserve? s i.id with | some _ => _ | none => _ : Load σ _).run s = _
    cases IdRegister.reserve? s i.id <;> rfl

/-- Reading an instance is all that reserves an id. -/
theorem Parallel.loadInstance (hh : IdRegister.Hom h) (room : Nat) (j : Json) :
    Parallel h (Load.loadInstance room j : Load σ Instance) (Load.loadInstance room j) := by
  intro s
  rw [run_loadInstance, run_loadInstance]
  cases Instance.ofJson? room j with
  | none => rfl
  | some i =>
    simp only [hh s i.id]
    cases IdRegister.reserve? s i.id <;> rfl

theorem Parallel.loadState (hh : IdRegister.Hom h) (room : Nat) (j : Json) :
    Parallel h (Load.loadState room j : Load σ (Option Instance)) (Load.loadState room j) := by
  cases j with
  | null => exact .pure none
  | _ =>
    simp only [Load.loadState, map_eq_pure_bind]
    exact (Parallel.loadInstance hh room _).bind fun i => .pure _

theorem Parallel.loadNodeMembers (hh : IdRegister.Hom h) (room : Nat)
    (ms : List (Option String × Json)) (parts : NodeParts) :
    Parallel h (Load.loadNodeMembers room parts ms : Load σ GraphNode)
      (Load.loadNodeMembers room parts ms) := by
  induction ms generalizing parts with
  | nil => exact (Parallel.expect parts.id).bind fun id => .pure _
  | cons m ms ih =>
    obtain ⟨key, j⟩ := m
    cases key with
    | none => exact .throw _
    | some key =>
      simp only [Load.loadNodeMembers]
      split
      · split
        · exact .throw _
        · exact (Parallel.expect _).bind fun id => ih _
      · split
        · split
          · exact .throw _
          · exact (Parallel.loadState hh room j).bind fun state => ih _
        · split
          · exact ih _
          · exact .throw _

theorem Parallel.loadNode (hh : IdRegister.Hom h) (room : Nat) (j : Json) :
    Parallel h (Load.loadNode room j : Load σ GraphNode) (Load.loadNode room j) := by
  unfold Load.loadNode
  split
  · exact .loadNodeMembers hh _ _ _
  · exact (Parallel.expect _).bind fun id => .pure _
  · refine (Parallel.expect _).bind fun id => (Parallel.loadState hh _ _).bind fun state => ?_
    split
    · exact .pure _
    · exact .throw _
  · exact .throw _

theorem Parallel.loadNodes (hh : IdRegister.Hom h) (room : Nat) (j : Json) :
    Parallel h (Load.loadNodes room j : Load σ (List GraphNode)) (Load.loadNodes room j) := by
  unfold Load.loadNodes
  split
  · exact .mapM (fun j => .loadNode hh _ j) _
  · exact .throw _

theorem Parallel.loadGraphMembers (hh : IdRegister.Hom h) (room : Nat)
    (ms : List (Option String × Json)) (parts : GraphParts) :
    Parallel h (Load.loadGraphMembers room parts ms : Load σ Graph)
      (Load.loadGraphMembers room parts ms) := by
  induction ms generalizing parts with
  | nil => exact (Parallel.expect parts.nodes).bind fun nodes => .pure _
  | cons m ms ih =>
    obtain ⟨key, j⟩ := m
    cases key with
    | none => exact .throw _
    | some key =>
      simp only [Load.loadGraphMembers]
      split
      · split
        · exact .throw _
        · exact (Parallel.loadNodes hh room j).bind fun nodes => ih _
      · split
        · split
          · exact .throw _
          · exact (Parallel.expect _).bind fun edges => ih _
        · split
          · exact ih _
          · exact .throw _

theorem Parallel.loadDocument (hh : IdRegister.Hom h) (room : Nat) (j : Json) :
    Parallel h (Load.loadDocument room j : Load σ Graph) (Load.loadDocument room j) := by
  unfold Load.loadDocument
  split
  · exact .loadGraphMembers hh _ _ _
  · exact (Parallel.loadNodes hh _ _).bind fun nodes => .pure _
  · refine (Parallel.loadNodes hh _ _).bind fun nodes => (Parallel.expect _).bind fun edges => ?_
    split
    · exact .pure _
    · exact .throw _
  · exact .throw _

end Registers

end Load

section Parallel

variable {σ τ : Type} [IdRegister σ] [IdRegister τ] {h : σ → τ}

theorem Graph.acceptNodes_map (hh : IdRegister.Hom h) (ns before : List GraphNode) (s : σ) :
    acceptNodes before (h s) ns = ((acceptNodes before s ns).1, h (acceptNodes before s ns).2) := by
  induction ns generalizing before s with
  | nil => rfl
  | cons n ns ih =>
    simp only [acceptNodes, hh s n.id]
    split
    · rfl
    · cases IdRegister.reserve? s n.id with
      | none => rfl
      | some s =>
        simp only [Option.map_some]
        split
        · rfl
        · exact ih _ s

theorem Graph.ofDocument_map (hh : IdRegister.Hom h) (document : Graph) (s : σ) :
    ofDocument document (h s) = ((ofDocument document s).1, h (ofDocument document s).2) := by
  unfold ofDocument
  rw [acceptNodes_map hh]
  cases acceptNodes [] s document.nodes with
  | mk r s =>
    cases r with
    | error e => rfl
    | ok nodes =>
      simp only
      split <;> rfl

/-- A load carries over along a map of registers. -/
theorem Graph.loadInto_map (hh : IdRegister.Hom h) (source : String) (s : σ) :
    Graph.loadInto source (h s) = ((Graph.loadInto source s).1, h (Graph.loadInto source s).2) := by
  have hread := Load.Parallel.loadText (Load.Parallel.loadDocument hh nestingLimit) source s
  unfold Graph.loadInto
  rw [hread]
  cases (Load.loadText (Load.loadDocument nestingLimit) source).run s with
  | mk r s =>
    cases r with
    | error e => rfl
    | ok document => exact ofDocument_map hh document s

theorem Instance.loadInto_map (hh : IdRegister.Hom h) (source : String) (s : σ) :
    Instance.loadInto source (h s) =
      ((Instance.loadInto source s).1, h (Instance.loadInto source s).2) :=
  Load.Parallel.loadText (Load.Parallel.loadInstance hh Graph.nestingLimit) source s

end Parallel

/-! ### The ids that a text reserves -/

/-- The ids that loading the text of a graph reserves, in order. -/
def Graph.reservedBy (source : String) : List InstanceId :=
  (Graph.loadInto source ({} : IdLog)).2.ids

/-- The ids that loading the text of an instance reserves. -/
def Instance.reservedBy (source : String) : List InstanceId :=
  (Instance.loadInto source ({} : IdLog)).2.ids

theorem Graph.inRange_of_mem_reservedBy {source : String} {id : InstanceId}
    (h : id ∈ Graph.reservedBy source) : id.inRange = true :=
  (Graph.loadInto source ({} : IdLog)).2.inRange id h

theorem Instance.inRange_of_mem_reservedBy {source : String} {id : InstanceId}
    (h : id ∈ Instance.reservedBy source) : id.inRange = true :=
  (Instance.loadInto source ({} : IdLog)).2.inRange id h

/-- **Loading a graph raises the counter above the ids that it reserves**, and its answer does not
depend on the counter. -/
theorem Graph.load_eq (source : String) (counter : Counter) :
    Graph.load source counter =
      ((Graph.loadInto source ({} : IdLog)).1, counter.reserveAll (Graph.reservedBy source)) :=
  Graph.loadInto_map counter.hom_reserveAll source {}

/-- **Loading an instance raises the counter above the id that it reserves.** -/
theorem Instance.load_eq (source : String) (counter : Counter) :
    Instance.load source counter =
      ((Instance.loadInto source ({} : IdLog)).1,
        counter.reserveAll (Instance.reservedBy source)) :=
  Instance.loadInto_map counter.hom_reserveAll source {}

/-! ### What is loaded -/

namespace Graph

/-- Nodes that are accepted carry their own instances under ids of their own, and all of their ids
are reserved. -/
theorem acceptNodes_eq_ok {before ns nodes : List GraphNode} {log log' : IdLog}
    (h : acceptNodes before log ns = (.ok nodes, log')) (hbefore : (before.map (·.id)).Nodup)
    (hstates : ∀ n ∈ before, ∀ i, n.state = some i → i.id = n.id)
    (hreserved : ∀ n ∈ before, n.id ∈ log.ids) :
    (nodes.map (·.id)).Nodup ∧ (∀ n ∈ nodes, ∀ i, n.state = some i → i.id = n.id) ∧
      ∀ n ∈ nodes, n.id ∈ log'.ids := by
  induction ns generalizing before log with
  | nil =>
    obtain ⟨hnodes, rfl⟩ := Prod.mk.inj h
    obtain rfl := Except.ok.inj hnodes
    exact ⟨hbefore, hstates, hreserved⟩
  | cons n ns ih =>
    simp only [acceptNodes] at h
    split at h
    · simp at h
    · rename_i hstate
      split at h
      · simp at h
      · rename_i log₁ hlog
        have hids := IdLog.reserve?_eq_some hlog
        split at h
        · simp at h
        · rename_i hnew
          have hnew : ∀ m ∈ before, m.id ≠ n.id := by simpa using hnew
          refine ih h ?_ ?_ ?_
          · rw [List.map_append, List.nodup_append]
            refine ⟨hbefore, by simp, fun a ha b hb => ?_⟩
            obtain ⟨m, hm, rfl⟩ := List.mem_map.1 ha
            obtain rfl : b = n.id := by simpa using hb
            exact hnew m hm
          · intro m hm i hi
            rcases List.mem_append.1 hm with hm | hm
            · exact hstates m hm i hi
            · obtain rfl := List.mem_singleton.1 hm
              by_contra hne
              simp [hi, Option.filter, hne] at hstate
          · intro m hm
            rw [hids, List.mem_append]
            rcases List.mem_append.1 hm with hm | hm
            · exact .inl (hreserved m hm)
            · obtain rfl := List.mem_singleton.1 hm
              exact .inr List.mem_cons_self

theorem linked_of_ofDocument {document g : Graph} {log : IdLog}
    (h : (ofDocument document log).1 = .ok g) :
    g.Linked ∧ ∀ n ∈ g.nodes, n.id ∈ (ofDocument document log).2.ids := by
  unfold ofDocument at h ⊢
  cases haccept : acceptNodes [] log document.nodes with
  | mk r log' =>
    rw [haccept] at h
    cases r with
    | error e => simp at h
    | ok nodes =>
      obtain ⟨hids, hstates, hreserved⟩ :=
        acceptNodes_eq_ok haccept List.nodup_nil (by simp) (by simp)
      simp only at h ⊢
      split at h
      · simp at h
      · rename_i hstray
        obtain rfl := Except.ok.inj h
        refine ⟨⟨hids, hstates, fun e he => ?_⟩, by simpa [hstray] using hreserved⟩
        have hends := List.find?_eq_none.1 hstray
        simp only [List.mem_flatMap, forall_exists_index, and_imp] at hends
        exact ⟨by simpa using hends e.source e he (by simp),
          by simpa using hends e.target e he (by simp)⟩

/-- **A loaded graph is linked, and the ids of its nodes are reserved.** -/
theorem linked_of_load {source : String} {counter : Counter} {g : Graph}
    (h : (Graph.load source counter).1 = .ok g) :
    g.Linked ∧ ∀ n ∈ g.nodes, n.id ∈ Graph.reservedBy source := by
  rw [Graph.load_eq] at h
  simp only [reservedBy, loadInto] at h ⊢
  cases hread : (Load.loadText (Load.loadDocument nestingLimit) source).run ({} : IdLog) with
  | mk r log =>
    rw [hread] at h
    cases r with
    | error e => simp at h
    | ok document => exact linked_of_ofDocument h

end Graph

/-- The id of a loaded instance is reserved. -/
theorem Instance.id_mem_reservedBy_of_load {source : String} {counter : Counter} {i : Instance}
    (h : (Instance.load source counter).1 = .ok i) : i.id ∈ Instance.reservedBy source := by
  rw [Instance.load_eq] at h
  simp only at h
  unfold reservedBy
  unfold loadInto Load.loadText at h ⊢
  rw [run_bind, Load.run_loadInstance] at h ⊢
  cases hread : Instance.ofJson? Graph.nestingLimit (Json.read source).root with
  | none => simp [hread] at h
  | some k =>
    simp only [hread] at h ⊢
    cases hlog : IdRegister.reserve? ({} : IdLog) k.id with
    | none => simp [hlog] at h
    | some log =>
      simp only [hlog] at h ⊢
      have hids := IdLog.reserve?_eq_some hlog
      by_cases hended : (Json.read source).ended = true
      · rw [if_pos hended] at h ⊢
        obtain rfl : k = i := Except.ok.inj h
        exact hids ▸ List.mem_cons_self
      · rw [if_neg hended] at h
        exact nomatch h

end SyntaxGraph
