/-!
# Programs that may fail

A program that has a state and may fail answers a value or an error, and in either case a state.
What it has done to the state before it fails stays done: a part that fails ends the program with
the state it leaves.
-/

namespace SyntaxGraph

variable {ε σ α β : Type}

/-- A program runs its first part and goes on from the state that part leaves, unless it fails. -/
theorem run_bind (x : ExceptT ε (StateM σ) α) (f : α → ExceptT ε (StateM σ) β) (s : σ) :
    (x >>= f).run s = match x.run s with
      | (.ok a, s) => (f a).run s
      | (.error e, s) => (.error e, s) := by
  unfold ExceptT.run
  simp only [bind, ExceptT.bind, ExceptT.mk, StateT.bind, ExceptT.bindCont]
  cases x s with
  | mk r s => cases r <;> rfl

theorem run_map (f : α → β) (x : ExceptT ε (StateM σ) α) (s : σ) :
    (f <$> x).run s = ((x.run s).1.map f, (x.run s).2) := by
  rw [map_eq_pure_bind, run_bind]
  cases x.run s with
  | mk r s => cases r <;> rfl

@[simp] theorem run_pure (a : α) (s : σ) :
    (pure a : ExceptT ε (StateM σ) α).run s = (.ok a, s) := rfl

@[simp] theorem run_get (s : σ) : (get : ExceptT ε (StateM σ) σ).run s = (.ok s, s) := rfl

/-- In a program that succeeds both parts do. -/
theorem exists_of_run_bind_eq_ok {x : ExceptT ε (StateM σ) α} {f : α → ExceptT ε (StateM σ) β}
    {s s' : σ} {b : β} (h : (x >>= f).run s = (.ok b, s')) :
    ∃ a s₁, x.run s = (.ok a, s₁) ∧ (f a).run s₁ = (.ok b, s') := by
  rw [run_bind] at h
  cases hx : x.run s with
  | mk r s₁ =>
    rw [hx] at h
    cases r with
    | error e => exact nomatch h
    | ok a => exact ⟨a, s₁, rfl, h⟩

end SyntaxGraph
