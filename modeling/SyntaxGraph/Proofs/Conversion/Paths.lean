import SyntaxGraph.Proofs.Conversion.Resolution

/-!
# Units at paths

What stands at a path of a forest, after a pass over the whole forest and after a decision at some
path. A pass that keeps the form of the forest takes the unit at a path to the unit at the same path.
A decision changes the selection at its own path and no other selection, so two decisions at different
paths can change places.
-/

namespace SyntaxGraph

/-- The selected alternative of a choice. -/
def FieldUnit.selected? : FieldUnit → Option Nat
  | .choice _ _ _ i => some i
  | .single .. => none
  | .sequence _ => none

/-- The unit at a path that starts at a unit. The empty path addresses the unit itself. -/
def FieldUnit.below? (u : FieldUnit) : List Nat → Option FieldUnit
  | [] => some u
  | i :: path => Units.unitAt? u.children (i :: path)

namespace Units

@[simp] theorem unitAt?_nil (us : List FieldUnit) : unitAt? us [] = none := by
  rw [unitAt?]

theorem unitAt?_cons (us : List FieldUnit) (i : Nat) (path : List Nat) :
    unitAt? us (i :: path) = us[i]?.bind (·.below? path) := by
  cases path with
  | nil =>
    rw [unitAt?]
    cases us[i]? <;> rfl
  | cons j path => rw [unitAt?]; rfl

theorem selectedAt?_eq (us : List FieldUnit) (path : List Nat) :
    selectedAt? us path = (unitAt? us path).bind FieldUnit.selected? := by
  unfold selectedAt?
  cases unitAt? us path with
  | none => rfl
  | some u => cases u <;> rfl

/-- A pass that keeps the form of the forest acts on the unit at each path. -/
theorem unitAt?_map {f : FieldUnit → FieldUnit} (hf : ∀ u, (f u).children = u.children.map f)
    (us : List FieldUnit) (path : List Nat) :
    unitAt? (us.map f) path = (unitAt? us path).map f := by
  induction path generalizing us with
  | nil => rw [unitAt?_nil, unitAt?_nil, Option.map_none]
  | cons i path ih =>
    rw [unitAt?_cons, unitAt?_cons, List.getElem?_map]
    cases us[i]? with
    | none => rfl
    | some u =>
      cases path with
      | nil => rfl
      | cons j path =>
        simp only [Option.map_some, Option.bind_some, FieldUnit.below?]
        rw [hf, ih]

theorem unitAt?_bare (us : List FieldUnit) (path : List Nat) :
    unitAt? (bare us) path = (unitAt? us path).map FieldUnit.bare := by
  rw [bare_eq_map]
  refine unitAt?_map (fun u => ?_) us path
  cases u with
  | single f v => rfl
  | choice n o cs i => simp only [FieldUnit.bare, FieldUnit.children, bare_eq_map]
  | sequence cs => simp only [FieldUnit.bare, FieldUnit.children, bare_eq_map]

end Units

namespace Conversion

open SyntaxGraph.Units (unitAt? selectedAt?)

theorem unitAt?_settleUnits (accept : FieldUnit → Bool) (us : List FieldUnit) (path : List Nat) :
    unitAt? (settleUnits accept us) path = (unitAt? us path).map (settleUnit accept) := by
  rw [settleUnits_eq_map]
  refine Units.unitAt?_map (fun u => ?_) us path
  cases u with
  | single f v => rfl
  | choice n o cs i => simp only [settleUnit, FieldUnit.children, settleUnits_eq_map]
  | sequence cs => simp only [settleUnit, FieldUnit.children, settleUnits_eq_map]

theorem unitAt?_mapTexts (text : FieldSpec → Option String → Option String) (us : List FieldUnit)
    (path : List Nat) :
    unitAt? (mapTexts text us) path = (unitAt? us path).map (mapUnitTexts text) := by
  rw [mapTexts_eq_map]
  refine Units.unitAt?_map (fun u => ?_) us path
  cases u with
  | single f v => rfl
  | choice n o cs i => simp only [mapUnitTexts, FieldUnit.children, mapTexts_eq_map]
  | sequence cs => simp only [mapUnitTexts, FieldUnit.children, mapTexts_eq_map]

/-! ### Decisions at paths -/

/-- The unit after a decision at a path that starts at it. -/
def decideUnit (index : Nat) : List Nat → FieldUnit → FieldUnit
  | [], .choice n o cs _ => .choice n o cs index
  | [], .single f v => .single f v
  | [], .sequence cs => .sequence cs
  | i :: path, u => u.withChildren (withDecision u.children (i :: path, index))

theorem withDecision_nil (us : List FieldUnit) (index : Nat) : withDecision us ([], index) = us := rfl

/-- A decision changes one unit of the forest. -/
theorem withDecision_cons (us : List FieldUnit) (i : Nat) (path : List Nat) (index : Nat) :
    withDecision us (i :: path, index) = us.modify i (decideUnit index path) := by
  cases hu : us[i]? with
  | none =>
    rw [List.modify_eq_self (List.getElem?_eq_none_iff.1 hu)]
    cases path <;> simp only [withDecision, Units.withChoice?, hu] <;> rfl
  | some u =>
    have hself : us.set i u = us := by
      obtain ⟨hi, rfl⟩ := List.getElem?_eq_some_iff.1 hu
      exact List.set_getElem_self hi
    rw [List.modify_eq_set, hu, Option.getD_some]
    cases path with
    | nil =>
      simp only [withDecision, Units.withChoice?, hu]
      cases u with
      | choice n o cs k => rfl
      | single f v => exact hself.symm
      | sequence cs => exact hself.symm
    | cons j path =>
      simp only [withDecision, Units.withChoice?, hu, decideUnit]
      cases Units.withChoice? u.children index (j :: path) with
      | none =>
        have hchildren : u.withChildren u.children = u := by cases u <;> rfl
        simp only [Option.map_none, Option.getD_none, hchildren, hself]
      | some cs => rfl

/-- **A decision sets the selection at its path** and keeps all others. -/
theorem selectedAt?_withDecision {us : List FieldUnit} {path : List Nat} {k : Nat}
    (h : selectedAt? us path = some k) (index : Nat) (q : List Nat) :
    selectedAt? (withDecision us (path, index)) q =
      if q = path then some index else selectedAt? us q := by
  induction path generalizing us q with
  | nil => simp [Units.selectedAt?_eq] at h
  | cons i path ih =>
    rw [Units.selectedAt?_eq, Units.unitAt?_cons] at h
    rw [withDecision_cons, Units.selectedAt?_eq, Units.selectedAt?_eq]
    cases q with
    | nil => simp
    | cons j q =>
      rw [Units.unitAt?_cons, Units.unitAt?_cons]
      by_cases hij : i = j
      · subst hij
        obtain ⟨u, hu, h⟩ :
            ∃ u, us[i]? = some u ∧ (u.below? path).bind FieldUnit.selected? = some k := by
          cases hu : us[i]? with
          | none => simp [hu] at h
          | some u => exact ⟨u, rfl, by simpa [hu] using h⟩
        rw [List.getElem?_modify_eq, hu]
        simp only [Option.map_eq_map, Option.map_some, Option.bind_some, List.cons.injEq, true_and]
        -- the decision is at the unit itself, or at a path through the units below it
        cases path with
        | nil =>
          cases u with
          | choice n o cs k => cases q <;> rfl
          | single f v => simp [FieldUnit.below?, FieldUnit.selected?] at h
          | sequence cs => simp [FieldUnit.below?, FieldUnit.selected?] at h
        | cons a path =>
          rw [FieldUnit.below?, ← Units.selectedAt?_eq] at h
          cases q with
          | nil => cases u <;> rfl
          | cons b q =>
            have ih := ih h (b :: q)
            rw [Units.selectedAt?_eq, Units.selectedAt?_eq] at ih
            cases u with
            | single f v => simp [Units.selectedAt?_eq, Units.unitAt?_cons, FieldUnit.children] at h
            | choice n o cs k => exact ih
            | sequence cs => exact ih
      · rw [List.getElem?_modify_ne _ _ hij, if_neg (by simp [Ne.symm hij])]

theorem isSome_withChoice? (us : List FieldUnit) (index : Nat) (path : List Nat) :
    (Units.withChoice? us index path).isSome = (selectedAt? us path).isSome := by
  induction path generalizing us with
  | nil => rfl
  | cons i path ih =>
    rw [Units.selectedAt?_eq, Units.unitAt?_cons]
    cases path with
    | nil =>
      rw [Units.withChoice?]
      cases us[i]? with
      | none => rfl
      | some u => cases u <;> rfl
    | cons j path =>
      rw [Units.withChoice?]
      cases us[i]? with
      | none => rfl
      | some u =>
        simp only [Option.isSome_map, Option.bind_some, FieldUnit.below?]
        rw [ih, Units.selectedAt?_eq]

theorem withDecision_of_none {us : List FieldUnit} {path : List Nat} (h : selectedAt? us path = none)
    (index : Nat) : withDecision us (path, index) = us := by
  have hnone : Units.withChoice? us index path = none := by
    rw [← Option.not_isSome_iff_eq_none, isSome_withChoice?, h]
    simp
  simp only [withDecision, hnone, Option.getD_none]

/-- A decision makes no choice and takes none away. -/
theorem isSome_selectedAt?_withDecision (us : List FieldUnit) (d : List Nat × Nat) (q : List Nat) :
    (selectedAt? (withDecision us d) q).isSome = (selectedAt? us q).isSome := by
  obtain ⟨path, index⟩ := d
  cases h : selectedAt? us path with
  | none => rw [withDecision_of_none h]
  | some k =>
    rw [selectedAt?_withDecision h]
    split
    · rename_i hq
      rw [hq, h]
      rfl
    · rfl

/-- Decisions at different paths can change places. -/
theorem withDecision_comm {p q : List Nat} (hpq : p ≠ q) (us : List FieldUnit) (i j : Nat) :
    withDecision (withDecision us (p, i)) (q, j) = withDecision (withDecision us (q, j)) (p, i) := by
  induction p generalizing us q with
  | nil => rw [withDecision_nil, withDecision_nil]
  | cons a p ih =>
    cases q with
    | nil => rw [withDecision_nil, withDecision_nil]
    | cons b q =>
      simp only [withDecision_cons]
      by_cases hab : a = b
      · subst hab
        rw [List.modify_modify_eq, List.modify_modify_eq]
        congr 1
        funext u
        simp only [Function.comp_apply]
        have hpq : p ≠ q := fun h => hpq (by rw [h])
        cases p with
        | nil =>
          cases q with
          | nil => exact absurd rfl hpq
          | cons c q => cases u <;> rfl
        | cons d p =>
          cases q with
          | nil => cases u <;> rfl
          | cons c q =>
            have ih := ih hpq u.children
            cases u with
            | single f v => rfl
            | choice n o cs k =>
              simp only [decideUnit, FieldUnit.withChildren, FieldUnit.children] at ih ⊢
              rw [ih]
            | sequence cs =>
              simp only [decideUnit, FieldUnit.withChildren, FieldUnit.children] at ih ⊢
              rw [ih]
      · rw [List.modify_modify_ne _ _ _ hab]

end Conversion

end SyntaxGraph
