import SyntaxGraph.Proofs.Schema.UnitData

/-!
# Updates of units

Setting a text reaches the fields of a name, wherever they stand; selecting an alternative reaches
the choice at a path. At every other path the data stay as they are. Since a forest is known from
its data, this says all there is to say of an update, and how two updates go together is read off
what each does at a path: of two that reach the same data the later one wins, and others can change
places.
-/

namespace SyntaxGraph

/-- The unit with the text `value`, if it is a field called `name`. -/
def FieldUnit.setText (name : String) (value : Option String) : FieldUnit → FieldUnit
  | .single f v => .single f (if f.name = name then value else v)
  | u => u

/-- The unit with the alternative `index` selected, if it is a choice. -/
def FieldUnit.select (index : Nat) : FieldUnit → FieldUnit
  | .choice n o cs _ => .choice n o cs index
  | u => u

namespace Units

open Conversion (withDecision withDecision_of_none withDecision_comm withValue_eq_mapTexts
  withValue_eq_mapUnitTexts)

/-! ### Texts -/

section Texts

variable (name : String) (value : Option String) (us : List FieldUnit)

theorem unitAt?_withValue (path : List Nat) :
    unitAt? (withValue name value us) path =
      (unitAt? us path).map (FieldUnit.withValue name value) := by
  rw [withValue_eq_mapTexts, Conversion.unitAt?_mapTexts]
  exact congrArg (Option.map · _) (funext fun u => (withValue_eq_mapUnitTexts name value u).symm)

/-- **Setting a text reaches the fields of the name and nothing else.** -/
theorem dataAt?_withValue (path : List Nat) :
    dataAt? (withValue name value us) path =
      (dataAt? us path).map (FieldUnit.setText name value) := by
  have hdata : ∀ u : FieldUnit, (u.withValue name value).data = u.data.setText name value := by
    intro u
    cases u with
    | single f v => simp only [FieldUnit.withValue]; rfl
    | choice n o cs i => simp only [FieldUnit.withValue]; rfl
    | sequence cs => simp only [FieldUnit.withValue]; rfl
  rw [dataAt?, dataAt?, unitAt?_withValue, Option.map_map, Option.map_map]
  exact congrArg (Option.map · _) (funext hdata)

theorem selectedAt?_withValue (path : List Nat) :
    selectedAt? (withValue name value us) path = selectedAt? us path := by
  rw [selectedAt?_eq, selectedAt?_eq, unitAt?_withValue, Option.bind_map]
  congr 1
  funext u
  cases u <;> simp only [Function.comp_apply, FieldUnit.withValue] <;> rfl

theorem withValue_of_forall_ne (h : ∀ s ∈ singles us, s.1.name ≠ name) :
    withValue name value us = us := by
  refine eq_of_dataAt? fun path => ?_
  rw [dataAt?_withValue, dataAt?, Option.map_map]
  refine Option.map_congr fun u hu => ?_
  cases u with
  | single f v =>
    have hname := h (f, v) (mem_singles_iff_unitAt?.2 ⟨path, hu⟩)
    exact congrArg (FieldUnit.single f) (if_neg hname)
  | choice n o cs i => rfl
  | sequence cs => rfl

theorem withValue_withValue (value' : Option String) :
    withValue name value' (withValue name value us) = withValue name value' us := by
  refine eq_of_dataAt? fun path => ?_
  rw [dataAt?_withValue, dataAt?_withValue, dataAt?_withValue, Option.map_map]
  congr 1
  funext u
  cases u with
  | single f v => by_cases hf : f.name = name <;> simp [FieldUnit.setText, hf]
  | choice n o cs i => rfl
  | sequence cs => rfl

theorem withValue_comm {name' : String} (hname : name ≠ name') (value' : Option String) :
    withValue name' value' (withValue name value us) =
      withValue name value (withValue name' value' us) := by
  refine eq_of_dataAt? fun path => ?_
  simp only [dataAt?_withValue, Option.map_map]
  congr 1
  funext u
  cases u with
  | single f v =>
    by_cases hf : f.name = name
    · simp [FieldUnit.setText, hf, hname]
    · simp [FieldUnit.setText, hf]
  | choice n o cs i => rfl
  | sequence cs => rfl

end Texts

/-! ### Selections -/

section Selections

variable (us : List FieldUnit)

theorem selectedAt?_eq_some_iff {path : List Nat} {k : Nat} :
    selectedAt? us path = some k ↔ ∃ n o cs, unitAt? us path = some (.choice n o cs k) := by
  unfold selectedAt?
  cases unitAt? us path with
  | none => simp
  | some u => cases u <;> simp

/-- Selecting an alternative succeeds where there is a choice, and is a decision then. -/
theorem withChoice?_eq (index : Nat) (path : List Nat) :
    withChoice? us index path =
      (selectedAt? us path).map fun _ => withDecision us (path, index) := by
  have hsome := Conversion.isSome_withChoice? us index path
  cases hk : selectedAt? us path with
  | none =>
    rw [hk] at hsome
    simpa using hsome
  | some k =>
    obtain ⟨vs, hvs⟩ := Option.isSome_iff_exists.1 (hsome.trans (by rw [hk]; rfl))
    rw [withDecision, hvs]
    rfl

/-- **A decision reaches the choice at its path and nothing else.** -/
theorem dataAt?_withDecision_eq (path : List Nat) (index : Nat) (q : List Nat) :
    dataAt? (withDecision us (path, index)) q =
      if q = path then (dataAt? us q).map (FieldUnit.select index) else dataAt? us q := by
  split
  · rename_i hq
    subst hq
    cases hk : selectedAt? us q with
    | none =>
      rw [withDecision_of_none hk, dataAt?, Option.map_map]
      refine (Option.map_congr fun u hu => ?_).symm
      cases u with
      | choice n o cs k => simp [selectedAt?, hu] at hk
      | single f v => rfl
      | sequence cs => rfl
    | some k =>
      obtain ⟨n, o, cs, hat⟩ := (selectedAt?_eq_some_iff us).1 hk
      rw [dataAt?, dataAt?, unitAt?_withDecision_self hat, hat]
      rfl
  · rename_i hq
    exact dataAt?_withDecision us hq index

theorem withDecision_withDecision (path : List Nat) (i j : Nat) :
    withDecision (withDecision us (path, i)) (path, j) = withDecision us (path, j) := by
  refine eq_of_dataAt? fun q => ?_
  simp only [dataAt?_withDecision_eq]
  split
  · rw [Option.map_map]
    congr 1
    funext u
    cases u <;> rfl
  · rfl

theorem withDecision_selectedAt? {path : List Nat} {k : Nat} (h : selectedAt? us path = some k) :
    withDecision us (path, k) = us := by
  obtain ⟨n, o, cs, hat⟩ := (selectedAt?_eq_some_iff us).1 h
  refine eq_of_dataAt? fun q => ?_
  rw [dataAt?_withDecision_eq]
  split
  · rename_i hq
    rw [hq, dataAt?, hat]
    rfl
  · rfl

theorem withDecision_withValue (name : String) (value : Option String) (path : List Nat)
    (index : Nat) : withDecision (withValue name value us) (path, index) =
      withValue name value (withDecision us (path, index)) := by
  refine eq_of_dataAt? fun q => ?_
  simp only [dataAt?_withDecision_eq, dataAt?_withValue]
  split
  · rw [Option.map_map, Option.map_map]
    congr 1
    funext u
    cases u <;> rfl
  · rfl

/-- Two selections one after the other succeed where both paths lead to a choice. -/
theorem bind_withChoice? (p q : List Nat) (i j : Nat) :
    (withChoice? us i p).bind (withChoice? · j q) =
      if (selectedAt? us p).isSome ∧ (selectedAt? us q).isSome then
        some (withDecision (withDecision us (p, i)) (q, j))
      else none := by
  have hq := Conversion.isSome_selectedAt?_withDecision us (p, i) q
  rw [withChoice?_eq]
  cases selectedAt? us p with
  | none => simp
  | some k =>
    rw [Option.map_some, Option.bind_some, withChoice?_eq, ← hq]
    cases selectedAt? (withDecision us (p, i)) q <;> simp

theorem bind_withChoice?_self (path : List Nat) (i j : Nat) :
    (withChoice? us i path).bind (withChoice? · j path) = withChoice? us j path := by
  rw [bind_withChoice?, withChoice?_eq, withDecision_withDecision]
  cases selectedAt? us path <;> simp

theorem bind_withChoice?_comm {p q : List Nat} (hpq : p ≠ q) (i j : Nat) :
    (withChoice? us i p).bind (withChoice? · j q) =
      (withChoice? us j q).bind (withChoice? · i p) := by
  rw [bind_withChoice?, bind_withChoice?, withDecision_comm hpq]
  simp only [and_comm]

theorem withChoice?_withValue (name : String) (value : Option String) (index : Nat)
    (path : List Nat) : withChoice? (withValue name value us) index path =
      (withChoice? us index path).map (withValue name value) := by
  rw [withChoice?_eq, withChoice?_eq, selectedAt?_withValue, withDecision_withValue, Option.map_map]
  rfl

theorem withChoice?_selectedAt? {path : List Nat} {k : Nat} (h : selectedAt? us path = some k) :
    withChoice? us k path = some us := by
  rw [withChoice?_eq, h, Option.map_some, withDecision_selectedAt? us h]

end Selections

/-- **What updates do.** Setting a text gives it to the fields of the name and changes no other data
at any path; where no field has the name, nothing changes. Selecting an alternative succeeds exactly
at the path of a choice; it sets the selection of this choice and changes no data at other paths.

So of two texts for a name, and of two selections at a path, the later one counts. Texts for two
names, selections at two paths, and a text and a selection can change places. To select what is
selected changes nothing. -/
theorem updates_exact (us : List FieldUnit) :
    (∀ name value path, dataAt? (withValue name value us) path =
      (dataAt? us path).map (FieldUnit.setText name value)) ∧
    (∀ name value, (∀ s ∈ singles us, s.1.name ≠ name) → withValue name value us = us) ∧
    (∀ path index, (withChoice? us index path).isSome ↔
      ∃ n o cs k, unitAt? us path = some (.choice n o cs k)) ∧
    (∀ path index, ∀ vs ∈ withChoice? us index path, ∀ q, dataAt? vs q =
      if q = path then (dataAt? us q).map (FieldUnit.select index) else dataAt? us q) ∧
    (∀ name v w, withValue name w (withValue name v us) = withValue name w us) ∧
    (∀ path i j, (withChoice? us i path).bind (withChoice? · j path) = withChoice? us j path) ∧
    (∀ m n v w, m ≠ n →
      withValue n w (withValue m v us) = withValue m v (withValue n w us)) ∧
    (∀ p q i j, p ≠ q → (withChoice? us i p).bind (withChoice? · j q) =
      (withChoice? us j q).bind (withChoice? · i p)) ∧
    (∀ name value path index, withChoice? (withValue name value us) index path =
      (withChoice? us index path).map (withValue name value)) ∧
    (∀ path, ∀ k ∈ selectedAt? us path, withChoice? us k path = some us) := by
  refine ⟨fun name value => dataAt?_withValue name value us,
    fun name value => withValue_of_forall_ne name value us, fun path index => ?_,
    fun path index vs hvs q => ?_, fun name v w => withValue_withValue name v us w,
    bind_withChoice?_self us, fun m n v w hmn => withValue_comm m v us hmn w,
    fun p q i j hpq => bind_withChoice?_comm us hpq i j,
    fun name value path index => withChoice?_withValue us name value index path,
    fun path k => withChoice?_selectedAt? us⟩
  · rw [Conversion.isSome_withChoice?, Option.isSome_iff_exists]
    simp only [selectedAt?_eq_some_iff]
    constructor
    · rintro ⟨k, n, o, cs, hat⟩
      exact ⟨n, o, cs, k, hat⟩
    · rintro ⟨n, o, cs, k, hat⟩
      exact ⟨k, n, o, cs, hat⟩
  · rw [Option.mem_def, withChoice?_eq] at hvs
    obtain ⟨k, -, rfl⟩ := Option.map_eq_some_iff.1 hvs
    exact dataAt?_withDecision_eq us path index q

/-- A field, and a choice between a word and a choice with a field of the first one's name. -/
def bracket : List FieldUnit := [
  .single { name := "Open", declaredType := "SyntaxToken" } (some "("),
  .choice (some "Body") false [
    .single { name := "Word", declaredType := "SyntaxToken" } none,
    .choice none true [.single { name := "Open", declaredType := "SyntaxToken" } (some "(")] 0] 1]

/-- The inner choice keeps its data when the outer one selects another alternative, and the two
selections can change places. -/
theorem updates_bracket :
    ((∀ s ∈ singles bracket, s.1.name ≠ "Close") ∧ withValue "Close" (some ")") bracket = bracket) ∧
    (∃ vs ∈ withChoice? bracket 0 [1], ∀ q, dataAt? vs q =
      if q = [1] then (dataAt? bracket q).map (FieldUnit.select 0) else dataAt? bracket q) ∧
    ("Open" ≠ "Word" ∧
      withValue "Word" (some "w") (withValue "Open" (some "[") bracket) =
        withValue "Open" (some "[") (withValue "Word" (some "w") bracket)) ∧
    ([1] ≠ [1, 1] ∧ (withChoice? bracket 0 [1]).bind (withChoice? · 2 [1, 1]) =
      (withChoice? bracket 2 [1, 1]).bind (withChoice? · 0 [1])) ∧
    (1 ∈ selectedAt? bracket [1] ∧ withChoice? bracket 1 [1] = some bracket) := by
  obtain ⟨-, habsent, -, hselection, -, -, htexts, hselections, -, hsame⟩ := updates_exact bracket
  have hclose : ∀ s ∈ singles bracket, s.1.name ≠ "Close" := by decide
  have hselected : 1 ∈ selectedAt? bracket [1] := by decide
  obtain ⟨vs, hvs⟩ := Option.isSome_iff_exists.1 (show (withChoice? bracket 0 [1]).isSome by decide)
  exact ⟨⟨hclose, habsent "Close" (some ")") hclose⟩, ⟨vs, hvs, hselection [1] 0 vs hvs⟩,
    ⟨by decide, htexts "Open" "Word" (some "[") (some "w") (by decide)⟩,
    ⟨by decide, hselections [1] [1, 1] 0 2 (by decide)⟩, ⟨hselected, hsame [1] 1 hselected⟩⟩

end Units

end SyntaxGraph
