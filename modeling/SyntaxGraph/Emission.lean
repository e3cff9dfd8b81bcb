import SyntaxGraph.Store
import SyntaxGraph.Total

/-!
# Emission

The text of a graph is written from given roots, each node in the order of the schema:

* a token field writes its text and a space, a token list the same with commas turned into spaces;
* a node field writes its children, a separated list with `", "` between them;
* a choice writes its selected alternative, a sequence all of its units.

A node without an instance writes nothing, and neither does one that is its own ancestor at that
place.

Emission works off a stack of pending work and keeps the set of nodes that it is inside of. It ends
because a node is entered only when it has an instance and is not yet among the active ones, so
there is a bound on the work that any piece of it can lead to.
-/

namespace SyntaxGraph.Emission

/-- A piece of work. -/
inductive Work where
  | node (id : InstanceId)
  | unit (owner : InstanceId) (u : FieldUnit)
  | text (s : String)
  | leave (id : InstanceId)

/-- What stands between the children of a separated list. -/
def separator : String := ", "

/-- A text with its commas turned into spaces. -/
def spaceCommas (s : String) : String :=
  s.map fun c => if c = ',' then ' ' else c

/-- What a text writes, if it is set and not empty. -/
def valueText (change : String → String) : Option String → String
  | some s => if s.isEmpty then "" else change s ++ " "
  | none => ""

/-- What a unit writes by itself. -/
def unitText : FieldUnit → String
  | .single f v =>
    match f.kind with
    | .token => valueText (fun s => s) v
    | .tokenList => valueText spaceCommas v
    | _ => ""
  | .choice .. => ""
  | .sequence _ => ""

/-- The work for a child of a node field that is not the first: a separator goes before it where the
kind of the field asks for one. -/
def laterChild (kind : FieldKind) (id : InstanceId) : List Work :=
  if kind.needsSeparator then [.text separator, .node id] else [.node id]

/-- The work for the children of a node field. -/
def childWork (kind : FieldKind) : List InstanceId → List Work
  | [] => []
  | id :: ids => .node id :: ids.flatMap (laterChild kind)

/-- The work that a unit leads to. -/
def unitWork (ix : EdgeIndex) (owner : InstanceId) : FieldUnit → List Work
  | .single f _ => if f.kind.isNode then childWork f.kind (ix.children owner f.name) else []
  | .choice _ _ cs i =>
    match FieldUnit.pick cs i with
    | some u => [.unit owner u]
    | none => []
  | .sequence cs => cs.map (.unit owner)

/-- The state of an emission. -/
structure Machine where
  /-- What was written so far. -/
  out : String
  /-- The nodes that emission is inside of, innermost first. -/
  active : List InstanceId
  stack : List Work

/-- Does the next piece of work. -/
def step (store : Store) (ix : EdgeIndex) (m : Machine) : Option Machine :=
  match m.stack with
  | [] => none
  | .node id :: rest =>
    if id ∈ m.active then some { m with stack := rest }
    else
      match store.state? id with
      | none => some { m with stack := rest }
      | some i =>
        some { m with
          active := id :: m.active
          stack := i.fields.map (.unit id) ++ .leave id :: rest }
  | .unit owner u :: rest =>
    some { m with out := m.out ++ unitText u, stack := unitWork ix owner u ++ rest }
  | .text s :: rest => some { m with out := m.out ++ s, stack := rest }
  | .leave id :: rest => some { m with active := m.active.erase id, stack := rest }

/-! ### The work that is left -/

mutual

/-- The number of steps that a node takes inside the active ones. -/
def nodeCost (store : Store) (ix : EdgeIndex) (active : List InstanceId) (id : InstanceId) : Nat :=
  if ha : id ∈ active then 1
  else
    match hs : store.state? id with
    | none => 1
    | some i =>
      have := Store.dormant_cons_lt hs ha
      2 + total (i.fields.map fun u => unitCost store ix (id :: active) id u)
termination_by (store.dormant active, 0)

/-- The number of steps that a unit takes inside the active nodes. -/
def unitCost (store : Store) (ix : EdgeIndex) (active : List InstanceId) (owner : InstanceId)
    (u : FieldUnit) : Nat :=
  match u with
  | .single f _ =>
    if f.kind.isNode then
      1 + total ((childWork f.kind (ix.children owner f.name)).map fun w =>
        match w with
        | .node id => nodeCost store ix active id
        | _ => 1)
    else 1
  | .choice _ _ cs i =>
    match h : FieldUnit.pick cs i with
    | some u =>
      have := FieldUnit.sizeOf_lt_of_pick h
      1 + unitCost store ix active owner u
    | none => 1
  | .sequence cs => 1 + total (cs.attach.map fun u =>
      have := List.sizeOf_lt_of_mem u.2
      unitCost store ix active owner u.1)
termination_by (store.dormant active, sizeOf u)

end

/-- The number of steps that a piece of work takes inside the active nodes. -/
def workCost (store : Store) (ix : EdgeIndex) (active : List InstanceId) : Work → Nat
  | .node id => nodeCost store ix active id
  | .unit owner u => unitCost store ix active owner u
  | .text _ => 1
  | .leave _ => 1

/-- The number of steps that the pending work takes. -/
def stackCost (store : Store) (ix : EdgeIndex) (active : List InstanceId) : List Work → Nat
  | [] => 0
  | .leave id :: rest => 1 + stackCost store ix (active.erase id) rest
  | w :: rest => workCost store ix active w + stackCost store ix active rest

/-- Work that does not leave a node. -/
def Work.isPlain : Work → Bool
  | .leave _ => false
  | _ => true

theorem stackCost_append {store : Store} {ix : EdgeIndex} {active : List InstanceId}
    {ws : List Work} (h : ∀ w ∈ ws, w.isPlain = true) (rest : List Work) :
    stackCost store ix active (ws ++ rest) =
      total (ws.map (workCost store ix active)) + stackCost store ix active rest := by
  induction ws with
  | nil => simp
  | cons w ws ih =>
    have hw := h w (by simp)
    have ih := ih fun v hv => h v (by simp [hv])
    cases w with
    | leave id => simp [Work.isPlain] at hw
    | node id => simp [stackCost, ih, Nat.add_assoc]
    | unit o u => simp [stackCost, ih, Nat.add_assoc]
    | text s => simp [stackCost, ih, Nat.add_assoc]

theorem eq_of_mem_childWork {kind : FieldKind} {children : List InstanceId} {w : Work}
    (h : w ∈ childWork kind children) : w = .text separator ∨ ∃ id, w = .node id := by
  cases children with
  | nil => simp [childWork] at h
  | cons id ids =>
    simp only [childWork, List.mem_cons, List.mem_flatMap] at h
    rcases h with rfl | ⟨k, -, h⟩
    · exact .inr ⟨id, rfl⟩
    · unfold laterChild at h
      split at h
      all_goals
        simp only [List.mem_cons, List.not_mem_nil, or_false] at h
      · exact h.imp_right fun h => ⟨k, h⟩
      · exact .inr ⟨k, h⟩

theorem isPlain_of_mem_unitWork {ix : EdgeIndex} {owner : InstanceId} {u : FieldUnit} {w : Work}
    (h : w ∈ unitWork ix owner u) : w.isPlain = true := by
  cases u with
  | single f v =>
    simp only [unitWork] at h
    split at h
    · rcases eq_of_mem_childWork h with rfl | ⟨id, rfl⟩ <;> rfl
    · simp at h
  | choice n o cs i =>
    simp only [unitWork] at h
    split at h
    · simp only [List.mem_singleton] at h
      subst h
      rfl
    · simp at h
  | sequence cs =>
    simp only [unitWork, List.mem_map] at h
    obtain ⟨u, -, rfl⟩ := h
    rfl

theorem unitCost_eq (store : Store) (ix : EdgeIndex) (active : List InstanceId) (owner : InstanceId)
    (u : FieldUnit) :
    unitCost store ix active owner u =
      1 + total ((unitWork ix owner u).map (workCost store ix active)) := by
  cases u with
  | single f v =>
    rw [unitCost]
    simp only [unitWork]
    split
    · congr 2
      refine List.map_congr_left fun w hw => ?_
      rcases eq_of_mem_childWork hw with rfl | ⟨id, rfl⟩ <;> rfl
    · simp
  | choice n o cs i =>
    rw [unitCost]
    simp only [unitWork]
    split
    · rename_i h
      simp [h, workCost]
    · rename_i h
      simp [h]
  | sequence cs =>
    rw [unitCost]
    simp only [unitWork, List.map_map]
    rw [List.attach_map_val (f := fun u => unitCost store ix active owner u)]
    rfl

theorem nodeCost_of_state {store : Store} {ix : EdgeIndex} {active : List InstanceId}
    {id : InstanceId} {i : Instance} (ha : id ∉ active) (hs : store.state? id = some i) :
    nodeCost store ix active id =
      2 + total (i.fields.map fun u => unitCost store ix (id :: active) id u) := by
  rw [nodeCost]
  simp only [ha, dif_neg, not_false_eq_true]
  split
  · simp_all
  · simp_all

theorem nodeCost_of_mem {store : Store} {ix : EdgeIndex} {active : List InstanceId}
    {id : InstanceId} (ha : id ∈ active) : nodeCost store ix active id = 1 := by
  rw [nodeCost, dif_pos ha]

theorem nodeCost_of_none {store : Store} {ix : EdgeIndex} {active : List InstanceId}
    {id : InstanceId} (hs : store.state? id = none) : nodeCost store ix active id = 1 := by
  rw [nodeCost]
  split
  · rfl
  · split
    · rfl
    · simp_all

/-- A step takes one off the number of steps that are left. -/
theorem stackCost_step {store : Store} {ix : EdgeIndex} {m n : Machine}
    (h : step store ix m = some n) :
    stackCost store ix n.active n.stack + 1 = stackCost store ix m.active m.stack := by
  unfold step at h
  split at h
  · simp at h
  · rename_i id rest hm
    rw [hm]
    split at h
    · rename_i ha
      cases h
      simp only [stackCost, workCost, nodeCost_of_mem ha]
      omega
    · rename_i ha
      split at h
      · rename_i hs
        cases h
        simp only [stackCost, workCost, nodeCost_of_none hs]
        omega
      · rename_i i hs
        cases h
        rw [stackCost_append (by simp [Work.isPlain])]
        simp only [stackCost, workCost, nodeCost_of_state ha hs, List.erase_cons_head,
          List.map_map, Function.comp_def]
        omega
  · rename_i owner u rest hm
    rw [hm]
    cases h
    rw [stackCost_append fun w hw => isPlain_of_mem_unitWork hw]
    simp only [stackCost, workCost, unitCost_eq]
    omega
  · rename_i s rest hm
    rw [hm]
    cases h
    simp only [stackCost, workCost]
    omega
  · rename_i id rest hm
    rw [hm]
    cases h
    simp only [stackCost]
    omega

/-! ### Running -/

/-- Works until nothing is pending. -/
def run (store : Store) (ix : EdgeIndex) (m : Machine) : Machine :=
  match h : step store ix m with
  | none => m
  | some n =>
    have := stackCost_step h
    run store ix n
termination_by stackCost store ix m.active m.stack

theorem run_of_none {store : Store} {ix : EdgeIndex} {m : Machine} (h : step store ix m = none) :
    run store ix m = m := by
  rw [run]
  split
  · rfl
  · simp_all

theorem run_of_step {store : Store} {ix : EdgeIndex} {m n : Machine}
    (h : step store ix m = some n) : run store ix m = run store ix n := by
  rw [run]
  split
  · simp_all
  · rename_i k hk
    obtain rfl : n = k := by simpa [h] using hk
    rfl

/-- The text of the given roots, one after the other. -/
def emitIndexed (roots : List InstanceId) (store : Store) (ix : EdgeIndex) : String :=
  (run store ix ⟨"", [], roots.map .node⟩).out

/-- The text of the given roots, with children along the edges. -/
def emit (roots : List InstanceId) (store : Store) (edges : List Edge) : String :=
  emitIndexed roots store (.build edges)

end SyntaxGraph.Emission

/-- The text of a graph, written from its roots. -/
def SyntaxGraph.Graph.emit (g : Graph) : String :=
  Emission.emit g.roots (.ofGraph g) g.edges
