import SyntaxGraph.Schema.SharedCatalog

/-!
# Runs of a shared catalog

A shared catalog is asked for its catalog, loaded anew and asked whether it is ready, in any order,
while its loader succeeds and fails as it likes. A call loads if it is a rebuild, or if it asks for a
catalog that is not there; every other call leaves the shared catalog as it is.

The invariant of a run is that the current catalog is that of the latest loading that succeeded
(`current_after`). The answers of a run depend on the loader only as far as it was called
(`answers_congr`), and an answer that was given does not depend on what follows (`answers_append`).
-/

namespace SyntaxGraph.Schema.SharedCatalog

/-! ### Calls and answers -/

/-- What a shared catalog can be asked for. -/
inductive Call where
  | get
  | rebuild
  | isReady
deriving DecidableEq

/-- What a shared catalog answers. -/
inductive Answer where
  | loaded (result : Except Error Catalog)
  | ready (b : Bool)

/-- A shared catalog before its first call. -/
def start (loader : Nat → Except Error Catalog) : SharedCatalog :=
  { loader }

/-- The answer to a call, and the shared catalog after it. -/
def perform (s : SharedCatalog) : Call → Answer × SharedCatalog
  | .get => (.loaded s.get.1, s.get.2)
  | .rebuild => (.loaded s.rebuild.1, s.rebuild.2)
  | .isReady => (.ready s.isReady, s)

/-- The shared catalog after some calls. -/
def after (s : SharedCatalog) (calls : List Call) : SharedCatalog :=
  calls.foldl (fun s call => (s.perform call).2) s

/-- The answers to some calls, in order. -/
def answers (s : SharedCatalog) : List Call → List Answer
  | [] => []
  | call :: calls => (s.perform call).1 :: (s.perform call).2.answers calls

/-- The call is one that loads. -/
def Loads (s : SharedCatalog) (call : Call) : Prop :=
  call = .rebuild ∨ call = .get ∧ s.isReady = false

/-- The catalog is that of the latest among the first `n` loadings that succeeded. -/
def IsLatest (loader : Nat → Except Error Catalog) (n : Nat) (c : Catalog) : Prop :=
  ∃ k < n, loader k = .ok c ∧ ∀ j, k < j → j < n → ∃ e, loader j = .error e

section

variable {loader : Nat → Except Error Catalog} {s s' : SharedCatalog} {call : Call} {answer : Answer}

@[simp] theorem after_cons (s : SharedCatalog) (call : Call) (calls : List Call) :
    s.after (call :: calls) = (s.perform call).2.after calls :=
  rfl

theorem after_append (s : SharedCatalog) (a b : List Call) :
    s.after (a ++ b) = (s.after a).after b :=
  List.foldl_append

/-- The answers to the first calls do not depend on the calls that follow. -/
theorem answers_append (s : SharedCatalog) (a b : List Call) :
    s.answers (a ++ b) = s.answers a ++ (s.after a).answers b := by
  induction a generalizing s with
  | nil => rfl
  | cons call a ih =>
    simp only [List.cons_append, answers, after_cons, ih]

theorem length_answers (s : SharedCatalog) (calls : List Call) :
    (s.answers calls).length = calls.length := by
  induction calls generalizing s with
  | nil => rfl
  | cons call calls ih =>
    simp only [answers, List.length_cons, ih]

/-! ### What a call does -/

/-- A call loads a catalog, fails to load one, gives the catalog that is there, or tells whether one
is there. -/
inductive Step (s : SharedCatalog) : Call → Answer → SharedCatalog → Prop
  | loaded {call : Call} {c : Catalog} : s.Loads call → s.loader s.calls = .ok c →
      Step s call (.loaded (.ok c)) { s with calls := s.calls + 1, current := some c }
  | failed {call : Call} {e : Error} : s.Loads call → s.loader s.calls = .error e →
      Step s call (.loaded (.error e)) { s with calls := s.calls + 1 }
  | found {c : Catalog} : s.current = some c → Step s .get (.loaded (.ok c)) s
  | told : Step s .isReady (.ready s.isReady) s

theorem step_rebuild (h : s.Loads call) : s.Step call (.loaded s.rebuild.1) s.rebuild.2 := by
  cases hl : s.loader s.calls with
  | ok c =>
    simp only [rebuild, hl]
    exact .loaded h hl
  | error e =>
    simp only [rebuild, hl]
    exact .failed h hl

theorem step_perform (s : SharedCatalog) (call : Call) :
    s.Step call (s.perform call).1 (s.perform call).2 := by
  cases call with
  | get =>
    cases hc : s.current with
    | some c =>
      have hget : s.get = (.ok c, s) := by rw [get, hc]
      simp only [perform, hget]
      exact .found hc
    | none =>
      have hget : s.get = s.rebuild := by rw [get, hc]
      simp only [perform, hget]
      exact step_rebuild (.inr ⟨rfl, by rw [isReady, hc]; rfl⟩)
  | rebuild => exact step_rebuild (.inl rfl)
  | isReady => exact .told

namespace Step

theorem loader_eq (h : s.Step call answer s') : s'.loader = s.loader := by
  cases h <;> rfl

theorem calls_of_loads (h : s.Step call answer s') (hload : s.Loads call) :
    answer = .loaded (s.loader s.calls) ∧ s'.calls = s.calls + 1 := by
  cases h with
  | loaded _ hl => exact ⟨by rw [hl], rfl⟩
  | failed _ hl => exact ⟨by rw [hl], rfl⟩
  | found hc =>
    obtain h | ⟨_, h⟩ := hload
    · cases h
    · simp [isReady, hc] at h
  | told =>
    obtain h | ⟨h, _⟩ := hload <;> cases h

theorem eq_of_not_loads (h : s.Step call answer s') (hload : ¬ s.Loads call) : s' = s := by
  cases h with
  | loaded h _ => exact absurd h hload
  | failed h _ => exact absurd h hload
  | found _ => rfl
  | told => rfl

theorem calls_le (h : s.Step call answer s') : s.calls ≤ s'.calls := by
  by_cases hload : s.Loads call
  · rw [(h.calls_of_loads hload).2]
    exact Nat.le_succ _
  · exact Nat.le_of_eq (by rw [h.eq_of_not_loads hload])

theorem ready_eq {b : Bool} (h : s.Step call (.ready b) s') : b = s.isReady := by
  cases h
  rfl

theorem current_of_ok {c : Catalog} (h : s.Step call (.loaded (.ok c)) s') : s'.current = some c := by
  cases h with
  | loaded _ _ => rfl
  | found hc => exact hc

theorem of_error {e : Error} (h : s.Step call (.loaded (.error e)) s') :
    s.Loads call ∧ s.loader s.calls = .error e ∧ s'.current = s.current := by
  cases h with
  | failed hload hl => exact ⟨hload, hl, rfl⟩

end Step

/-! ### The latest catalog -/

/-- The catalog of the latest among the first loadings that succeeded. -/
def latest (loader : Nat → Except Error Catalog) : Nat → Option Catalog
  | 0 => none
  | n + 1 =>
    match loader n with
    | .ok c => some c
    | .error _ => latest loader n

theorem latest_eq_some_iff {n : Nat} {c : Catalog} :
    latest loader n = some c ↔ IsLatest loader n c := by
  induction n with
  | zero => simp [latest, IsLatest]
  | succ n ih =>
    cases hl : loader n with
    | ok d =>
      simp only [latest, hl, Option.some.injEq]
      constructor
      · rintro rfl
        exact ⟨n, Nat.lt_succ_self n, hl, fun j hj hjn => by omega⟩
      · rintro ⟨k, hk, hc, hlater⟩
        -- a loading before the last one is not the latest, as the last one succeeded
        obtain rfl | hlt := Nat.eq_or_lt_of_le (Nat.le_of_lt_succ hk)
        · rw [hl] at hc
          exact Except.ok.inj hc
        · obtain ⟨e, he⟩ := hlater n hlt (Nat.lt_succ_self n)
          rw [hl] at he
          cases he
    | error e =>
      simp only [latest, hl, ih]
      constructor
      · rintro ⟨k, hk, hc, hlater⟩
        refine ⟨k, Nat.lt_succ_of_lt hk, hc, fun j hj hjn => ?_⟩
        obtain rfl | hlt := Nat.eq_or_lt_of_le (Nat.le_of_lt_succ hjn)
        · exact ⟨e, hl⟩
        · exact hlater j hj hlt
      · rintro ⟨k, hk, hc, hlater⟩
        obtain rfl | hlt := Nat.eq_or_lt_of_le (Nat.le_of_lt_succ hk)
        · rw [hl] at hc
          cases hc
        · exact ⟨k, hlt, hc, fun j hj hjn => hlater j hj (Nat.lt_succ_of_lt hjn)⟩

theorem isSome_latest_iff {n : Nat} :
    (latest loader n).isSome = true ↔ ∃ k < n, ∃ c, loader k = .ok c := by
  induction n with
  | zero => simp [latest]
  | succ n ih =>
    cases hl : loader n with
    | ok c =>
      simp only [latest, hl, Option.isSome_some, true_iff]
      exact ⟨n, Nat.lt_succ_self n, c, hl⟩
    | error e =>
      simp only [latest, hl, ih]
      constructor
      · rintro ⟨k, hk, h⟩
        exact ⟨k, Nat.lt_succ_of_lt hk, h⟩
      · rintro ⟨k, hk, c, hc⟩
        obtain rfl | hlt := Nat.eq_or_lt_of_le (Nat.le_of_lt_succ hk)
        · rw [hl] at hc
          cases hc
        · exact ⟨k, hlt, c, hc⟩

/-! ### Runs -/

theorem Step.current_eq (h : s.Step call answer s') (hs : s.current = latest s.loader s.calls) :
    s'.current = latest s'.loader s'.calls := by
  cases h with
  | loaded _ hl => simp only [latest, hl]
  | failed _ hl => simp only [latest, hl, hs]
  | found _ => exact hs
  | told => exact hs

theorem loader_after (s : SharedCatalog) (calls : List Call) : (s.after calls).loader = s.loader := by
  induction calls generalizing s with
  | nil => rfl
  | cons call calls ih => rw [after_cons, ih, (step_perform s call).loader_eq]

theorem calls_le_after (s : SharedCatalog) (calls : List Call) : s.calls ≤ (s.after calls).calls := by
  induction calls generalizing s with
  | nil => exact Nat.le_refl _
  | cons call calls ih => exact Nat.le_trans (step_perform s call).calls_le (ih _)

/-- The invariant of a run, from any shared catalog that has it. -/
theorem current_after (hs : s.current = latest s.loader s.calls) (calls : List Call) :
    (s.after calls).current = latest (s.after calls).loader (s.after calls).calls := by
  induction calls generalizing s with
  | nil => exact hs
  | cons call calls ih => exact ih ((step_perform s call).current_eq hs)

theorem current_after_start (loader : Nat → Except Error Catalog) (calls : List Call) :
    ((start loader).after calls).current = latest loader ((start loader).after calls).calls := by
  have h : (start loader).current = latest (start loader).loader (start loader).calls := rfl
  rw [current_after h, loader_after, start]

/-! ### Other loaders -/

/-- The shared catalog with another loader. -/
def withLoader (s : SharedCatalog) (loader : Nat → Except Error Catalog) : SharedCatalog :=
  { s with loader }

/-- A call looks at no more of the loader than its answer to this one loading, if the call loads. -/
theorem perform_withLoader (h : s.Loads call → loader s.calls = s.loader s.calls) :
    (s.withLoader loader).perform call
      = ((s.perform call).1, (s.perform call).2.withLoader loader) := by
  have hrebuild (hl : loader s.calls = s.loader s.calls) :
      (s.withLoader loader).rebuild = (s.rebuild.1, s.rebuild.2.withLoader loader) := by
    simp only [rebuild, withLoader, hl]
    cases s.loader s.calls <;> rfl
  cases call with
  | get =>
    cases hc : s.current with
    | some c => simp only [perform, get, withLoader, hc]
    | none =>
      have hl := h (.inr ⟨rfl, by rw [isReady, hc]; rfl⟩)
      simp only [perform, get, hc, show (s.withLoader loader).current = none from hc, hrebuild hl]
  | rebuild => simp only [perform, hrebuild (h (.inl rfl))]
  | isReady => rfl

/-- A run depends on the loader only as far as it was called. -/
theorem answers_congr (calls : List Call)
    (h : ∀ k < (s.after calls).calls, loader k = s.loader k) :
    (s.withLoader loader).answers calls = s.answers calls
      ∧ (s.withLoader loader).after calls = (s.after calls).withLoader loader := by
  induction calls generalizing s with
  | nil => exact ⟨rfl, rfl⟩
  | cons call calls ih =>
    have hstep := step_perform s call
    have hfirst : (s.withLoader loader).perform call
        = ((s.perform call).1, (s.perform call).2.withLoader loader) := by
      refine perform_withLoader fun hload => h _ ?_
      have hrest := calls_le_after (s.perform call).2 calls
      rw [(hstep.calls_of_loads hload).2] at hrest
      exact hrest
    obtain ⟨hanswers, hafter⟩ := ih fun k hk => by
      rw [hstep.loader_eq]
      exact h k hk
    exact ⟨by simp only [answers, hfirst, hanswers], by simp only [after_cons, hfirst, hafter]⟩

end

/-! ### Every call of every run -/

/-- Take any loader and any run of calls, a call of it, and the calls before and after it. The loader
is called once if the call loads, with the number of the loadings before, and it is not called
otherwise: nothing that was answered so far depends on any other answer of the loader. The shared
catalog is ready if a loading succeeded, and says so. A catalog that is answered is that of the latest
loading that succeeded, and an error is that of the call's own loading, which leaves the shared catalog
as ready as it was and with the same catalog. And the answer is the same in the whole run, whatever
calls follow. -/
theorem answer_of_call (loader : Nat → Except Error Catalog) (before later : List Call) (call : Call) :
    let s := (start loader).after before
    let r := s.perform call
    (s.Loads call → r.1 = .loaded (loader s.calls) ∧ r.2.calls = s.calls + 1)
      ∧ (¬ s.Loads call → r.2 = s)
      ∧ (∀ loader', (∀ k < r.2.calls, loader' k = loader k) →
          (start loader').answers (before ++ [call]) = (start loader).answers (before ++ [call])
            ∧ ((start loader').after (before ++ [call])).calls = r.2.calls)
      ∧ (s.isReady = true ↔ ∃ k < s.calls, ∃ c, loader k = .ok c)
      ∧ (∀ b, r.1 = .ready b → b = s.isReady)
      ∧ (∀ c, r.1 = .loaded (.ok c) → IsLatest loader r.2.calls c)
      ∧ (∀ e, r.1 = .loaded (.error e) → s.Loads call ∧ loader s.calls = .error e
          ∧ r.2.isReady = s.isReady ∧ r.2.current = s.current)
      ∧ ((start loader).answers (before ++ call :: later))[before.length]? = some r.1 := by
  intro s r
  have hstep : s.Step call r.1 r.2 := step_perform s call
  have hloader : s.loader = loader := loader_after (start loader) before
  have hafter : (start loader).after (before ++ [call]) = r.2 := after_append _ _ _
  refine ⟨fun hload => ?_, hstep.eq_of_not_loads, fun loader' hagree => ?_, ?_, fun b hb => ?_,
    fun c hc => ?_, fun e he => ?_, ?_⟩
  · rw [← hloader]
    exact hstep.calls_of_loads hload
  · rw [← hafter] at hagree ⊢
    have hstart : start loader' = (start loader).withLoader loader' := rfl
    obtain ⟨hanswers, hother⟩ := answers_congr (before ++ [call]) hagree
    rw [hstart, hother]
    exact ⟨hanswers, rfl⟩
  · rw [isReady, current_after_start]
    exact isSome_latest_iff
  · rw [hb] at hstep
    exact hstep.ready_eq
  · rw [hc] at hstep
    rw [← latest_eq_some_iff, ← hafter, ← current_after_start, hafter]
    exact hstep.current_of_ok
  · rw [he] at hstep
    obtain ⟨hload, hl, hcurrent⟩ := hstep.of_error
    exact ⟨hload, hloader ▸ hl, by rw [isReady, isReady, hcurrent], hcurrent⟩
  · rw [answers_append, List.getElem?_append_right (Nat.le_of_eq (length_answers _ _)),
      length_answers, Nat.sub_self, answers, List.getElem?_cons_zero]

-- only the second loading succeeds, and its catalog stays although the third one fails
example (c : Catalog) :
    (start fun n => if n = 1 then .ok c else .error (.load "gone")).answers
        [.isReady, .get, .get, .rebuild, .get, .isReady]
      = [.ready false, .loaded (.error (.load "gone")), .loaded (.ok c),
          .loaded (.error (.load "gone")), .loaded (.ok c), .ready true] :=
  rfl

end SyntaxGraph.Schema.SharedCatalog
