import SyntaxGraph.Proofs.Schema.UnitData

/-!
# Selecting by name

Selecting an alternative by the name of the choice goes through the forest from the top and stops at
each choice of the name, which stays as it is below its selection. So the choices of the name that
are reached are the outermost ones. One that stands below another of the name keeps what it selects,
and all other data stay as they are, too.
-/

namespace SyntaxGraph

/-- The unit with the alternative `index` selected, if it is a choice called `name`. -/
def FieldUnit.selectNamed (name : String) (index : Nat) : FieldUnit → FieldUnit
  | .choice n o cs k => .choice n o cs (if n = some name then index else k)
  | u => u

namespace FieldUnit

/-- The unit is a choice called `name`. -/
def IsChoiceNamed (u : FieldUnit) (name : String) : Prop :=
  ∃ o cs k, u = .choice (some name) o cs k

section Update

variable (name : String) (index : Nat)

theorem data_withNamedChoice (u : FieldUnit) :
    (u.withNamedChoice name index).data = u.data.selectNamed name index := by
  cases u with
  | single f v => simp only [withNamedChoice]; rfl
  | choice n o cs k =>
    by_cases hn : n = some name <;>
      simp [withNamedChoice, data, withChildren, selectNamed, hn]
  | sequence cs => simp only [withNamedChoice]; rfl

/-- The update stops at a choice of the name. -/
theorem children_withNamedChoice_of_named {u : FieldUnit} (h : u.IsChoiceNamed name) :
    (u.withNamedChoice name index).children = u.children := by
  obtain ⟨o, cs, k, rfl⟩ := h
  rw [withNamedChoice, if_pos rfl]
  rfl

/-- The update goes on below every other unit. -/
theorem children_withNamedChoice_of_not_named {u : FieldUnit} (h : ¬u.IsChoiceNamed name) :
    (u.withNamedChoice name index).children = Units.withNamedChoice name index u.children := by
  cases u with
  | single f v => simp only [withNamedChoice]; rfl
  | choice n o cs k =>
    have hn : n ≠ some name := fun hn => h ⟨o, cs, k, by rw [hn]⟩
    rw [withNamedChoice, if_neg hn]
    rfl
  | sequence cs => simp only [withNamedChoice]; rfl

end Update

end FieldUnit

namespace Units

/-- A choice called `name` that selects `k` stands at the path. -/
def NamedChoiceAt (us : List FieldUnit) (name : String) (path : List Nat) (k : Nat) : Prop :=
  ∃ o cs, unitAt? us path = some (.choice (some name) o cs k)

/-- The path leads to a place below a choice called `name`. -/
def BelowNamed (us : List FieldUnit) (name : String) (path : List Nat) : Prop :=
  ∃ q, q <+: path ∧ q ≠ path ∧ ∃ k, NamedChoiceAt us name q k

theorem namedChoiceAt_iff_dataAt? {us : List FieldUnit} {name : String} {path : List Nat}
    {k : Nat} :
    NamedChoiceAt us name path k ↔ ∃ o, dataAt? us path = some (.choice (some name) o [] k) := by
  unfold NamedChoiceAt dataAt?
  cases unitAt? us path with
  | none => simp
  | some u => cases u <;> simp [FieldUnit.data, FieldUnit.withChildren]

theorem not_namedChoiceAt_nil (us : List FieldUnit) (name : String) (k : Nat) :
    ¬NamedChoiceAt us name [] k := by
  rintro ⟨o, cs, hat⟩
  simp at hat

/-- What is below a choice of the name is right below this choice or below another one further down.
-/
theorem belowNamed_cons_iff {us : List FieldUnit} {name : String} {i : Nat} {u : FieldUnit}
    (hu : us[i]? = some u) {path : List Nat} :
    BelowNamed us name (i :: path) ↔
      path ≠ [] ∧ (u.IsChoiceNamed name ∨ BelowNamed u.children name path) := by
  have hself : ∀ k, NamedChoiceAt us name [i] k ↔ ∃ o cs, u = .choice (some name) o cs k := by
    intro k
    rw [NamedChoiceAt, unitAt?_cons, hu]
    simp only [Option.bind_some, FieldUnit.below?, Option.some.injEq]
  have hbelow : ∀ a q k, NamedChoiceAt us name (i :: a :: q) k ↔
      NamedChoiceAt u.children name (a :: q) k := by
    intro a q k
    rw [NamedChoiceAt, unitAt?_cons, hu]
    rfl
  constructor
  · rintro ⟨_ | ⟨j, q⟩, hprefix, hne, k, hchoice⟩
    · exact absurd hchoice (not_namedChoiceAt_nil us name k)
    · obtain ⟨rfl, hq⟩ := List.cons_prefix_cons.1 hprefix
      have hne : q ≠ path := fun h => hne (by rw [h])
      refine ⟨fun h => hne ?_, ?_⟩
      · rw [h] at hq ⊢
        exact List.prefix_nil.1 hq
      · cases q with
        | nil =>
          obtain ⟨o, cs, hchoice⟩ := (hself k).1 hchoice
          exact .inl ⟨o, cs, k, hchoice⟩
        | cons a q => exact .inr ⟨a :: q, hq, hne, k, (hbelow a q k).1 hchoice⟩
  · rintro ⟨hpath, ⟨o, cs, k, hchoice⟩ | ⟨_ | ⟨a, q⟩, hq, hne, k, hchoice⟩⟩
    · exact ⟨[i], List.prefix_append [i] path, by simpa using hpath.symm, k,
        (hself k).2 ⟨o, cs, hchoice⟩⟩
    · exact absurd hchoice (not_namedChoiceAt_nil u.children name k)
    · exact ⟨i :: a :: q, List.cons_prefix_cons.2 ⟨rfl, hq⟩, by simpa using hne, k,
        (hbelow a q k).2 hchoice⟩

section Update

variable (name : String) (index : Nat) (us : List FieldUnit)

theorem dataAt?_withNamedChoice_cons (i : Nat) (path : List Nat) :
    dataAt? (withNamedChoice name index us) (i :: path) =
      us[i]?.bind fun u => ((u.withNamedChoice name index).below? path).map FieldUnit.data := by
  rw [dataAt?_cons, withNamedChoice_eq_map, List.getElem?_map, Option.bind_map]
  rfl

/-- **The update keeps the data below a choice of the name**, and at all other paths it selects the
alternative if there is a choice of the name. -/
theorem dataAt?_withNamedChoice (path : List Nat) :
    (BelowNamed us name path →
      dataAt? (withNamedChoice name index us) path = dataAt? us path) ∧
    (¬BelowNamed us name path → dataAt? (withNamedChoice name index us) path =
      (dataAt? us path).map (FieldUnit.selectNamed name index)) := by
  induction path generalizing us with
  | nil => exact ⟨fun _ => rfl, fun _ => rfl⟩
  | cons i path ih =>
    rw [dataAt?_withNamedChoice_cons, dataAt?_cons]
    cases hu : us[i]? with
    | none => exact ⟨fun _ => rfl, fun _ => rfl⟩
    | some u =>
      rw [belowNamed_cons_iff hu, Option.bind_some, Option.bind_some]
      cases path with
      | nil =>
        exact ⟨fun h => absurd rfl h.1,
          fun _ => congrArg some (u.data_withNamedChoice name index)⟩
      | cons j path =>
        have hne : j :: path ≠ [] := List.cons_ne_nil j path
        by_cases hnamed : u.IsChoiceNamed name
        · rw [FieldUnit.below?, FieldUnit.children_withNamedChoice_of_named name index hnamed]
          exact ⟨fun _ => rfl, fun h => absurd ⟨hne, .inl hnamed⟩ h⟩
        · rw [FieldUnit.below?, FieldUnit.children_withNamedChoice_of_not_named name index hnamed]
          obtain ⟨hkept, hselected⟩ := ih u.children
          exact ⟨fun h => hkept (h.2.resolve_left hnamed),
            fun h => hselected fun hbelow => h ⟨hne, .inr hbelow⟩⟩

/-- All choices of the name select the alternative exactly when those below another one did so
before. -/
theorem forall_namedChoiceAt_iff :
    (∀ path k, NamedChoiceAt (withNamedChoice name index us) name path k → k = index) ↔
      ∀ path k, BelowNamed us name path → NamedChoiceAt us name path k → k = index := by
  constructor
  · intro h path k hbelow hchoice
    refine h path k ?_
    rw [namedChoiceAt_iff_dataAt?] at hchoice ⊢
    rwa [(dataAt?_withNamedChoice name index us path).1 hbelow]
  · intro h path k hchoice
    by_cases hbelow : BelowNamed us name path
    · refine h path k hbelow ?_
      rw [namedChoiceAt_iff_dataAt?] at hchoice ⊢
      rwa [(dataAt?_withNamedChoice name index us path).1 hbelow] at hchoice
    · obtain ⟨o, hchoice⟩ := namedChoiceAt_iff_dataAt?.1 hchoice
      rw [(dataAt?_withNamedChoice name index us path).2 hbelow] at hchoice
      obtain ⟨u, -, hu⟩ := Option.map_eq_some_iff.1 hchoice
      cases u with
      | single f v => simp [FieldUnit.selectNamed] at hu
      | choice n p cs l =>
        simp only [FieldUnit.selectNamed, FieldUnit.choice.injEq] at hu
        obtain ⟨rfl, -, -, hk⟩ := hu
        rw [← hk, if_pos rfl]
      | sequence cs => simp [FieldUnit.selectNamed] at hu

/-- **What selecting by name does.** A choice of the name selects the alternative, unless it stands
below another choice of the name: what is there keeps its data, and so does every other unit. So all
choices of the name select the alternative exactly when those below another one did so before. -/
theorem withNamedChoice_exact :
    (∀ path, ¬BelowNamed us name path → dataAt? (withNamedChoice name index us) path =
      (dataAt? us path).map (FieldUnit.selectNamed name index)) ∧
    (∀ path, BelowNamed us name path →
      dataAt? (withNamedChoice name index us) path = dataAt? us path) ∧
    ((∀ path k, NamedChoiceAt (withNamedChoice name index us) name path k → k = index) ↔
      ∀ path k, BelowNamed us name path → NamedChoiceAt us name path k → k = index) :=
  ⟨fun path => (dataAt?_withNamedChoice name index us path).2,
    fun path => (dataAt?_withNamedChoice name index us path).1,
    forall_namedChoiceAt_iff name index us⟩

end Update

/-- A choice below one of the same name, and one below a sequence. -/
def nest : List FieldUnit := [
  .choice (some "End") false [
    .choice (some "End") false [
      .single { name := "Dot", declaredType := "SyntaxToken" } none,
      .single { name := "Mark", declaredType := "SyntaxToken" } none] 0,
    .single { name := "Line", declaredType := "SyntaxToken" } none] 0,
  .sequence [
    .choice (some "End") true [.single { name := "Dot", declaredType := "SyntaxToken" } none] 0]]

theorem withNamedChoice_nest :
    (¬BelowNamed nest "End" [1, 0] ∧
      dataAt? (withNamedChoice "End" 1 nest) [1, 0] = some (.choice (some "End") true [] 1)) ∧
    (BelowNamed nest "End" [0, 0] ∧
      dataAt? (withNamedChoice "End" 1 nest) [0, 0] = some (.choice (some "End") false [] 0)) := by
  have hapart : ¬BelowNamed nest "End" [1, 0] := by
    rintro ⟨q, hprefix, hne, k, o, cs, hat⟩
    simp only [List.prefix_cons_iff, List.prefix_nil] at hprefix
    obtain rfl | ⟨r, rfl, rfl | ⟨t, rfl, rfl⟩⟩ := hprefix
    · simp at hat
    · simp [nest, unitAt?] at hat
    · exact hne rfl
  have hbelow : BelowNamed nest "End" [0, 0] :=
    ⟨[0], by decide, by decide, 0, false, _, rfl⟩
  obtain ⟨hchanged, hkept, -⟩ := withNamedChoice_exact "End" 1 nest
  exact ⟨⟨hapart, hchanged [1, 0] hapart⟩, ⟨hbelow, hkept [0, 0] hbelow⟩⟩

/-- **A choice below one of the same name is not selected.** -/
theorem namedChoiceAt_nest :
    NamedChoiceAt (withNamedChoice "End" 1 nest) "End" [0, 0] 0 ∧
      ¬∀ path k, NamedChoiceAt (withNamedChoice "End" 1 nest) "End" path k → k = 1 := by
  have hinner : NamedChoiceAt (withNamedChoice "End" 1 nest) "End" [0, 0] 0 :=
    ⟨false, _, rfl⟩
  exact ⟨hinner, fun h => absurd (h [0, 0] 0 hinner) (by decide)⟩

end Units

end SyntaxGraph
