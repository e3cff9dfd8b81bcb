import SyntaxGraph.Proofs.Emission.Meaning

/-!
# Emission ends

Every piece of work leads to a number of steps that is known beforehand: `stackCost` counts them, by
recursion on the stored nodes that are not active and, below those, on the nesting of units. The main
statement says that emission takes exactly this number of steps, from any roots and along any edges,
and that nothing is active at its end.

What is active is read off the pending work at every moment: it is the list of the nodes that are
still to be left.
-/

namespace SyntaxGraph.Emission

variable {store : Store} {ix : EdgeIndex}

/-! ### Some steps in a row -/

/-- The machine after `k` steps, or `none` when its work ends before. -/
def after (store : Store) (ix : EdgeIndex) : Nat → Machine → Option Machine
  | 0, m => some m
  | k + 1, m => (step store ix m).bind (after store ix k)

/-- What one step keeps, some steps in a row keep. -/
theorem after_induction {P : Machine → Prop}
    (hstep : ∀ {m n}, step store ix m = some n → P m → P n) {k : Nat} {m n : Machine}
    (h : after store ix k m = some n) (hm : P m) : P n := by
  induction k generalizing m with
  | zero =>
    obtain rfl : m = n := by simpa [after] using h
    exact hm
  | succ k ih =>
    obtain ⟨m', hm', hn⟩ := Option.bind_eq_some_iff.1 h
    exact ih hn (hstep hm' hm)

/-- A run takes exactly the number of steps that its pending work costs. -/
theorem after_stackCost (store : Store) (ix : EdgeIndex) (m : Machine) :
    after store ix (stackCost store ix m.active m.stack) m = some (run store ix m) := by
  induction m using run.induct store ix with
  | case1 m h =>
    rw [run_of_none h, stack_eq_nil_of_step_eq_none h]
    rfl
  | case2 m n h _ ih =>
    rw [← stackCost_step h, run_of_step h, after, h]
    exact ih

theorem stack_run (store : Store) (ix : EdgeIndex) (m : Machine) : (run store ix m).stack = [] := by
  induction m using run.induct store ix with
  | case1 m h =>
    rw [run_of_none h]
    exact stack_eq_nil_of_step_eq_none h
  | case2 m n h _ ih =>
    rw [run_of_step h]
    exact ih

/-! ### What is active -/

/-- The nodes that the pending work leaves, in order. -/
def leaving : List Work → List InstanceId
  | [] => []
  | .leave id :: rest => id :: leaving rest
  | _ :: rest => leaving rest

theorem leaving_append {ws : List Work} (h : ∀ w ∈ ws, w.isPlain = true) (rest : List Work) :
    leaving (ws ++ rest) = leaving rest := by
  induction ws with
  | nil => rfl
  | cons w ws ih =>
    have hw := h w List.mem_cons_self
    have ih := ih fun v hv => h v (List.mem_cons_of_mem w hv)
    cases w with
    | leave id => simp [Work.isPlain] at hw
    | node id => exact ih
    | unit owner u => exact ih
    | text s => exact ih

/-- The active nodes are those that the pending work leaves, innermost first, and no node is active
twice. -/
structure Balanced (m : Machine) : Prop where
  active : m.active = leaving m.stack
  nodup : m.active.Nodup

theorem balanced_start (roots : List InstanceId) : Balanced ⟨"", [], roots.map .node⟩ where
  active := by
    have hplain : ∀ w ∈ roots.map Work.node, w.isPlain = true := by simp [Work.isPlain]
    have h := leaving_append hplain []
    rw [List.append_nil] at h
    exact h.symm
  nodup := List.nodup_nil

/-- **One step.** A node becomes active together with the work that leaves it. -/
theorem Balanced.step {m n : Machine} (h : step store ix m = some n) (hm : Balanced m) :
    Balanced n := by
  obtain ⟨out, active, stack⟩ := m
  obtain ⟨hactive, hnodup⟩ := hm
  simp only at hactive hnodup
  cases stack with
  | nil => simp [Emission.step] at h
  | cons w rest =>
    cases w with
    | node id =>
      by_cases ha : id ∈ active
      · simp only [Emission.step, ha, if_true, Option.some.injEq] at h
        subst h
        exact ⟨hactive, hnodup⟩
      · cases hs : store.state? id with
        | none =>
          simp only [Emission.step, ha, if_false, hs, Option.some.injEq] at h
          subst h
          exact ⟨hactive, hnodup⟩
        | some i =>
          simp only [Emission.step, ha, if_false, hs, Option.some.injEq] at h
          subst h
          refine ⟨?_, List.nodup_cons.2 ⟨ha, hnodup⟩⟩
          rw [leaving_append (by simp [Work.isPlain]), hactive]
          rfl
    | unit owner u =>
      simp only [Emission.step, Option.some.injEq] at h
      subst h
      refine ⟨?_, hnodup⟩
      rw [leaving_append fun w hw => isPlain_of_mem_unitWork hw]
      exact hactive
    | text s =>
      simp only [Emission.step, Option.some.injEq] at h
      subst h
      exact ⟨hactive, hnodup⟩
    | leave id =>
      simp only [Emission.step, Option.some.injEq] at h
      subst h
      -- the node that is left is the innermost active one
      have hid : active = id :: leaving rest := hactive
      have herase : active.erase id = leaving rest := by rw [hid, List.erase_cons_head]
      exact ⟨herase, hnodup.erase id⟩

/-- **A whole run.** At every moment the active nodes are those that are still to be left. -/
theorem Balanced.after {k : Nat} {m n : Machine} (h : after store ix k m = some n)
    (hm : Balanced m) : Balanced n :=
  after_induction (fun hstep => Balanced.step hstep) h hm

/-- **Emission ends.** From any roots, with any stored instances and along any edges, it takes exactly
as many steps as the roots cost. Then nothing is pending and nothing is active, and its text is
written; until then the active nodes are those that the pending work leaves, each of them once. -/
theorem after_emission (roots : List InstanceId) (store : Store) (edges : List Edge) :
    after store (.build edges) (stackCost store (.build edges) [] (roots.map .node))
        ⟨"", [], roots.map .node⟩ = some ⟨emit roots store edges, [], []⟩ ∧
      ∀ k m, after store (.build edges) k ⟨"", [], roots.map .node⟩ = some m →
        m.active = leaving m.stack ∧ m.active.Nodup := by
  have hrun := after_stackCost store (.build edges) ⟨"", [], roots.map .node⟩
  have hstack := stack_run store (.build edges) ⟨"", [], roots.map .node⟩
  have hend := (balanced_start roots).after hrun
  have hactive := hend.active
  rw [hstack] at hactive
  refine ⟨?_, fun k m hm => ?_⟩
  · rw [hrun, emit, emitIndexed]
    congr 1
    generalize run store (.build edges) ⟨"", [], roots.map .node⟩ = m at hstack hactive
    obtain ⟨out, active, stack⟩ := m
    simp only at hstack hactive
    rw [hstack, hactive]
    rfl
  · have hbalanced := (balanced_start roots).after hm
    exact ⟨hbalanced.active, hbalanced.nodup⟩

end SyntaxGraph.Emission
