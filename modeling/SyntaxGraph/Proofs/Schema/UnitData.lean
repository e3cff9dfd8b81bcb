import SyntaxGraph.Proofs.Conversion.Paths

/-!
# The data of units

A unit says something of itself and has other units below it. What it says of itself is its data:
the specification and text of a field, the name, optionality and selection of a choice. The units
below it stand at longer paths and have data of their own, so a forest is known from the data at all
paths.

Seen this way, an update at a path changes the data there and at no other path. The single fields of
a forest are what stands at its paths and is a field.
-/

namespace SyntaxGraph

/-- What a unit says of itself, the units below it left out. -/
def FieldUnit.data (u : FieldUnit) : FieldUnit :=
  u.withChildren []

theorem FieldUnit.data_withChildren (u : FieldUnit) (cs : List FieldUnit) :
    (u.withChildren cs).data = u.data := by
  cases u <;> rfl

theorem FieldUnit.withChildren_data (u : FieldUnit) : u.data.withChildren u.children = u := by
  cases u <;> rfl

/-- Induction on a unit by the units right below it, whatever kind of unit it is. -/
@[elab_as_elim]
theorem FieldUnit.inductionBelow {motive : FieldUnit → Prop}
    (step : ∀ u, (∀ w ∈ u.children, motive w) → motive u) (u : FieldUnit) : motive u := by
  induction u using FieldUnit.induction with
  | single f v => exact step _ (by simp [children])
  | choice n o cs i ih => exact step _ ih
  | sequence cs ih => exact step _ ih

namespace Units

/-- What the unit at a path says of itself. -/
def dataAt? (us : List FieldUnit) (path : List Nat) : Option FieldUnit :=
  (unitAt? us path).map FieldUnit.data

theorem dataAt?_cons (us : List FieldUnit) (i : Nat) (path : List Nat) :
    dataAt? us (i :: path) = us[i]?.bind fun u => (u.below? path).map FieldUnit.data := by
  rw [dataAt?, unitAt?_cons, Option.map_bind]
  rfl

/-- Nothing stands below a single field. -/
theorem below?_single (f : FieldSpec) (v : Option String) (i : Nat) (path : List Nat) :
    (FieldUnit.single f v).below? (i :: path) = none := by
  rw [FieldUnit.below?, unitAt?_cons]
  rfl

/-! ### Equality of forests -/

/-- Forests with the same data at all paths have the same units, if this holds of the units. -/
theorem eq_of_dataAt?_of_mem {us vs : List FieldUnit}
    (hmem : ∀ u ∈ us, ∀ v : FieldUnit,
      (∀ path, (u.below? path).map FieldUnit.data = (v.below? path).map FieldUnit.data) → u = v)
    (h : ∀ path, dataAt? us path = dataAt? vs path) : us = vs := by
  refine List.ext_getElem? fun i => ?_
  have hunit : ∀ path, (us[i]?.bind fun u => (u.below? path).map FieldUnit.data) =
      vs[i]?.bind fun v => (v.below? path).map FieldUnit.data := by
    intro path
    rw [← dataAt?_cons, ← dataAt?_cons, h]
  cases hu : us[i]? with
  | none =>
    cases hv : vs[i]? with
    | none => rfl
    | some v => exact absurd (hunit []) (by simp [hu, hv, FieldUnit.below?])
  | some u =>
    cases hv : vs[i]? with
    | none => exact absurd (hunit []) (by simp [hu, hv, FieldUnit.below?])
    | some v =>
      simp only [hu, hv, Option.bind_some] at hunit
      rw [hmem u (List.mem_of_getElem? hu) v hunit]

theorem unit_eq_of_below? {u v : FieldUnit}
    (h : ∀ path, (u.below? path).map FieldUnit.data = (v.below? path).map FieldUnit.data) :
    u = v := by
  induction u using FieldUnit.inductionBelow generalizing v with
  | step u ih =>
    have hself : u.data = v.data := Option.some.inj (h [])
    have hchildren : u.children = v.children := by
      refine eq_of_dataAt?_of_mem (fun w hw x => ih w hw) fun path => ?_
      cases path with
      | nil => rfl
      | cons i path => exact h (i :: path)
    rw [← u.withChildren_data, hself, hchildren, v.withChildren_data]

/-- **A forest is known from the data at all paths.** -/
theorem eq_of_dataAt? {us vs : List FieldUnit} (h : ∀ path, dataAt? us path = dataAt? vs path) :
    us = vs :=
  eq_of_dataAt?_of_mem (fun _ _ _ => unit_eq_of_below?) h

/-! ### A selection at a path -/

open Conversion (withDecision decideUnit withDecision_cons withDecision_nil)

/-- **A decision changes no data at other paths.** -/
theorem dataAt?_withDecision (us : List FieldUnit) {path q : List Nat} (hq : q ≠ path)
    (index : Nat) : dataAt? (withDecision us (path, index)) q = dataAt? us q := by
  induction path generalizing us q with
  | nil => rw [withDecision_nil]
  | cons i path ih =>
    cases q with
    | nil => rw [dataAt?, dataAt?, unitAt?_nil, unitAt?_nil]
    | cons j q =>
      rw [withDecision_cons, dataAt?_cons, dataAt?_cons]
      by_cases hij : i = j
      · subst hij
        have hq : q ≠ path := fun h => hq (by rw [h])
        rw [List.getElem?_modify_eq]
        cases us[i]? with
        | none => rfl
        | some u =>
          simp only [Option.map_eq_map, Option.map_some, Option.bind_some]
          -- the decision is at the unit itself, or further down
          cases path with
          | nil =>
            obtain ⟨b, q, rfl⟩ := List.exists_cons_of_ne_nil hq
            cases u <;> rfl
          | cons a path =>
            cases q with
            | nil => exact congrArg some (u.data_withChildren _)
            | cons b q =>
              have hbelow := ih u.children hq
              cases u with
              | single f v => rfl
              | choice n o cs k => exact hbelow
              | sequence cs => exact hbelow
      · rw [List.getElem?_modify_ne _ _ hij]

theorem unitAt?_withDecision_self {us : List FieldUnit} {path : List Nat} {n : Option String}
    {o : Bool} {cs : List FieldUnit} {k : Nat} (h : unitAt? us path = some (.choice n o cs k))
    (index : Nat) :
    unitAt? (withDecision us (path, index)) path = some (.choice n o cs index) := by
  induction path generalizing us with
  | nil => simp at h
  | cons i path ih =>
    rw [unitAt?_cons] at h
    obtain ⟨u, hu, h⟩ := Option.bind_eq_some_iff.1 h
    rw [withDecision_cons, unitAt?_cons, List.getElem?_modify_eq, hu]
    simp only [Option.map_eq_map, Option.map_some, Option.bind_some]
    cases path with
    | nil =>
      obtain rfl : u = .choice n o cs k := Option.some.inj h
      rfl
    | cons a path =>
      have hbelow := ih h
      cases u with
      | single f v => exact absurd (h.symm.trans (below?_single f v a path)) (by simp)
      | choice m p ds l => exact hbelow
      | sequence ds => exact hbelow

/-- A selection exchanges the choice at its path, and leaves the data at all other paths. -/
theorem of_withChoice? {us vs : List FieldUnit} {path : List Nat} {index : Nat}
    (h : withChoice? us index path = some vs) {n : Option String} {o : Bool} {cs : List FieldUnit}
    {k : Nat} (hat : unitAt? us path = some (.choice n o cs k)) :
    unitAt? vs path = some (.choice n o cs index) ∧
      ∀ q, q ≠ path → dataAt? vs q = dataAt? us q := by
  have hvs : withDecision us (path, index) = vs := by rw [withDecision, h, Option.getD_some]
  rw [← hvs]
  exact ⟨unitAt?_withDecision_self hat index, fun q hq => dataAt?_withDecision us hq index⟩

theorem exists_withChoice? {us : List FieldUnit} {path : List Nat} {n : Option String} {o : Bool}
    {cs : List FieldUnit} {k : Nat} (h : unitAt? us path = some (.choice n o cs k)) (index : Nat) :
    ∃ vs, withChoice? us index path = some vs := by
  rw [← Option.isSome_iff_exists, Conversion.isSome_withChoice?, selectedAt?, h]
  rfl

/-! ### The single fields at the paths -/

theorem mem_singles_iff {us : List FieldUnit} {s : FieldSpec × Option String} :
    s ∈ singles us ↔ ∃ u ∈ us, s ∈ u.singles := by
  induction us with
  | nil => simp
  | cons u us ih => simp [ih]

/-- What is shown of the units of a forest by paths from these units is shown by paths from the top.
-/
theorem exists_unitAt?_iff {us : List FieldUnit} {v : FieldUnit} :
    (∃ path, unitAt? us path = some v) ↔ ∃ u ∈ us, ∃ path, u.below? path = some v := by
  constructor
  · rintro ⟨path, h⟩
    cases path with
    | nil => simp at h
    | cons i path =>
      rw [unitAt?_cons] at h
      obtain ⟨u, hu, h⟩ := Option.bind_eq_some_iff.1 h
      exact ⟨u, List.mem_of_getElem? hu, path, h⟩
  · rintro ⟨u, hu, path, h⟩
    obtain ⟨i, hi⟩ := List.mem_iff_getElem?.1 hu
    exact ⟨i :: path, by rw [unitAt?_cons, hi]; exact h⟩

theorem mem_unit_singles_iff {u : FieldUnit} {f : FieldSpec} {v : Option String} :
    (f, v) ∈ u.singles ↔ ∃ path, u.below? path = some (.single f v) := by
  -- below a choice or a sequence, the empty path leads to the unit itself, which is no field
  have hbelow : ∀ {w : FieldUnit} {cs : List FieldUnit}, w.children = cs →
      (∀ f v, w ≠ .single f v) → (∀ u ∈ cs, ((f, v) ∈ u.singles ↔
        ∃ path, u.below? path = some (.single f v))) →
      ((f, v) ∈ singles cs ↔ ∃ path, w.below? path = some (.single f v)) := by
    intro w cs hcs hw ih
    rw [mem_singles_iff]
    constructor
    · rintro ⟨u, hu, hmem⟩
      obtain ⟨path, h⟩ := exists_unitAt?_iff.2 ⟨u, hu, (ih u hu).1 hmem⟩
      cases path with
      | nil => simp at h
      | cons i path => exact ⟨i :: path, by rw [FieldUnit.below?, hcs, h]⟩
    · rintro ⟨path, h⟩
      cases path with
      | nil => exact absurd (Option.some.inj h) (hw f v)
      | cons i path =>
        rw [FieldUnit.below?, hcs] at h
        obtain ⟨u, hu, hpath⟩ := exists_unitAt?_iff.1 ⟨i :: path, h⟩
        exact ⟨u, hu, (ih u hu).2 hpath⟩
  induction u using FieldUnit.induction with
  | single g w =>
    simp only [FieldUnit.singles, List.mem_singleton, Prod.mk.injEq]
    constructor
    · rintro ⟨rfl, rfl⟩
      exact ⟨[], rfl⟩
    · rintro ⟨path, h⟩
      cases path with
      | nil =>
        obtain ⟨rfl, rfl⟩ := FieldUnit.single.inj (Option.some.inj h)
        exact ⟨rfl, rfl⟩
      | cons i path => exact absurd (h.symm.trans (below?_single g w i path)) (by simp)
  | choice n o cs i ih =>
    rw [FieldUnit.singles]
    exact hbelow rfl (by simp) ih
  | sequence cs ih =>
    rw [FieldUnit.singles]
    exact hbelow rfl (by simp) ih

/-- **The single fields of a forest are what stands at its paths and is a field.** -/
theorem mem_singles_iff_unitAt? {us : List FieldUnit} {f : FieldSpec} {v : Option String} :
    (f, v) ∈ singles us ↔ ∃ path, unitAt? us path = some (.single f v) := by
  rw [mem_singles_iff, exists_unitAt?_iff]
  exact exists_congr fun u => and_congr_right fun _ => mem_unit_singles_iff

end Units

end SyntaxGraph
