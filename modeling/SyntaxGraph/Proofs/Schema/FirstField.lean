import SyntaxGraph.Proofs.Instance

/-!
# The text of a field

The text of a field is looked for by its name, in the order of declaration and in all alternatives.
The search through the units below a choice or a sequence tells only the text that it finds. A field
without a text ends it, but the search goes on behind the choice or the sequence. So it takes the
first text there is, in the forest as the search sees it: each list of units ends with its first
field of the name. This is the text of the first field of the name if that field has one, or if no
field that is seen has one. Where fields of the same name have the same text it always is.
-/

namespace SyntaxGraph

/-- The unit is a field called `name`. -/
def FieldUnit.isCalled (name : String) : FieldUnit → Bool
  | .single f _ => f.name == name
  | _ => false

mutual

/-- What the search for a field called `name` sees of a unit. -/
def FieldUnit.seen (name : String) : FieldUnit → FieldUnit
  | .single f v => .single f v
  | .choice n o cs i => .choice n o (Units.seen name cs) i
  | .sequence cs => .sequence (Units.seen name cs)

/-- What the search for a field called `name` sees of a forest: each list ends with its first field
of the name. -/
def Units.seen (name : String) : List FieldUnit → List FieldUnit
  | [] => []
  | u :: us => if u.isCalled name then [u] else u.seen name :: Units.seen name us

end

namespace Units

/-- The text of a field if it is called `name`. -/
def textFor (name : String) (s : FieldSpec × Option String) : Option String :=
  if s.1.name = name then s.2 else none

/-- The text of the first field called `name` in declaration order, if there is such a field and it
has a text. -/
def firstText? (name : String) (us : List FieldUnit) : Option String :=
  ((singles us).find? (·.1.name = name)).bind (·.2)

theorem exists_of_isCalled {name : String} {u : FieldUnit} (h : u.isCalled name = true) :
    ∃ f v, u = .single f v ∧ f.name = name := by
  cases u with
  | single f v => exact ⟨f, v, rfl, by simpa [FieldUnit.isCalled] using h⟩
  | choice n o cs i => simp [FieldUnit.isCalled] at h
  | sequence cs => simp [FieldUnit.isCalled] at h

section Seen

variable (name : String)

mutual

theorem search_eq : ∀ {u : FieldUnit}, u.isCalled name = false →
    u.search name = ((u.seen name).singles.findSome? (textFor name)).map some
  | .single f v, h => by
    have hf : f.name ≠ name := by simpa [FieldUnit.isCalled] using h
    simp [FieldUnit.search, FieldUnit.seen, FieldUnit.singles, textFor, hf]
  | .choice n o cs i, _ => by
    rw [FieldUnit.search, FieldUnit.seen, FieldUnit.singles, value?_eq cs]
  | .sequence cs, _ => by
    rw [FieldUnit.search, FieldUnit.seen, FieldUnit.singles, value?_eq cs]

/-- **The search takes the first text that it sees.** -/
theorem value?_eq : ∀ us : List FieldUnit,
    value? name us = (singles (seen name us)).findSome? (textFor name)
  | [] => by simp [value?, seen]
  | u :: us => by
    by_cases hu : u.isCalled name = true
    · obtain ⟨f, v, rfl, hf⟩ := exists_of_isCalled hu
      simp [value?, seen, FieldUnit.search, FieldUnit.isCalled, FieldUnit.singles, textFor, hf]
    · rw [value?, seen, if_neg hu, singles_cons, List.findSome?_append,
        search_eq (by simpa using hu), value?_eq us]
      cases (u.seen name).singles.findSome? (textFor name) <;> rfl

end

mutual

theorem find?_singles_unit_seen : ∀ u : FieldUnit,
    (u.seen name).singles.find? (·.1.name = name) = u.singles.find? (·.1.name = name)
  | .single f v => by rw [FieldUnit.seen]
  | .choice n o cs i => by
    rw [FieldUnit.seen, FieldUnit.singles, FieldUnit.singles, find?_singles_seen cs]
  | .sequence cs => by
    rw [FieldUnit.seen, FieldUnit.singles, FieldUnit.singles, find?_singles_seen cs]

/-- The first field of the name is seen. -/
theorem find?_singles_seen : ∀ us : List FieldUnit,
    (singles (seen name us)).find? (·.1.name = name) = (singles us).find? (·.1.name = name)
  | [] => by rw [seen]
  | u :: us => by
    by_cases hu : u.isCalled name = true
    · obtain ⟨f, v, rfl, hf⟩ := exists_of_isCalled hu
      simp [seen, FieldUnit.isCalled, FieldUnit.singles, hf]
    · rw [seen, if_neg hu, singles_cons, singles_cons, List.find?_append, List.find?_append,
        find?_singles_unit_seen u, find?_singles_seen us]

end

mutual

theorem unit_seen_sublist : ∀ u : FieldUnit, (u.seen name).singles.Sublist u.singles
  | .single f v => by rw [FieldUnit.seen]
  | .choice n o cs i => by
    rw [FieldUnit.seen, FieldUnit.singles, FieldUnit.singles]
    exact seen_sublist cs
  | .sequence cs => by
    rw [FieldUnit.seen, FieldUnit.singles, FieldUnit.singles]
    exact seen_sublist cs

theorem seen_sublist : ∀ us : List FieldUnit, (singles (seen name us)).Sublist (singles us)
  | [] => by rw [seen]
  | u :: us => by
    rw [seen, singles_cons]
    split
    · simp
    · rw [singles_cons]
      exact (unit_seen_sublist u).append (seen_sublist us)

end

variable {name} {us : List FieldUnit}

theorem textFor_eq_none_iff {s : FieldSpec × Option String} :
    textFor name s = none ↔ (s.1.name = name → s.2 = none) := by
  by_cases hs : s.1.name = name <;> simp [textFor, hs]

theorem firstText?_seen : firstText? name (seen name us) = firstText? name us := by
  rw [firstText?, firstText?, find?_singles_seen]

/-- If the first field of the name has a text, this is the first text for the name. -/
theorem findSome?_of_find? {ss : List (FieldSpec × Option String)} {text : String}
    (h : (ss.find? (·.1.name = name)).bind (·.2) = some text) :
    ss.findSome? (textFor name) = some text := by
  obtain ⟨s, hs, htext⟩ := Option.bind_eq_some_iff.1 h
  obtain ⟨hname, before, after, rfl, hbefore⟩ := List.find?_eq_some_iff_append.1 hs
  have hname : s.1.name = name := of_decide_eq_true hname
  have hnone : before.findSome? (textFor name) = none := by
    rw [List.findSome?_eq_none_iff]
    intro r hr
    have hrname : r.1.name ≠ name := by simpa using hbefore r hr
    exact textFor_eq_none_iff.2 fun h => absurd h hrname
  simp [List.findSome?_append, hnone, textFor, hname, htext]

/-- The search finds the text of the first field of the name exactly when this field has a text or
no field that is seen has one. -/
theorem value?_eq_firstText?_iff :
    value? name us = firstText? name us ↔ (firstText? name us).isSome ∨
      ∀ s ∈ singles (seen name us), s.1.name = name → s.2 = none := by
  cases hfirst : firstText? name us with
  | some text =>
    rw [← firstText?_seen] at hfirst
    rw [value?_eq, findSome?_of_find? hfirst]
    simp
  | none =>
    rw [value?_eq, List.findSome?_eq_none_iff]
    simp only [textFor_eq_none_iff, Option.isSome_none, Bool.false_eq_true, false_or]

theorem value?_eq_firstText?_of_textsAlike (h : TextsAlike us) :
    value? name us = firstText? name us := by
  rw [value?_eq_firstText?_iff]
  cases hfirst : firstText? name us with
  | some text => exact .inl rfl
  | none =>
    -- a field that is seen has the text of the first field, which has none
    refine .inr fun s hs hname => ?_
    have hmem := (seen_sublist name us).subset hs
    obtain ⟨r, hr⟩ : ∃ r, (singles us).find? (·.1.name = name) = some r := by
      rw [← Option.isSome_iff_exists, List.find?_isSome]
      exact ⟨s, hmem, decide_eq_true hname⟩
    rw [firstText?, hr] at hfirst
    have hrname : r.1.name = name := by simpa using List.find?_some hr
    rw [h s hmem r (List.mem_of_find?_eq_some hr) (hname.trans hrname.symm)]
    exact hfirst

end Seen

end Units

namespace Instance

open SyntaxGraph.Units (firstText? textFor TextsAlike)

/-- **The text that an instance has for a name** is the first one that the search sees. It is the
text of the first field of the name exactly when that field has a text or no field that is seen has
one, so it always is where fields of the same name have the same text. -/
theorem value?_exact (i : Instance) (name : String) :
    i.value? name = (Units.singles (Units.seen name i.fields)).findSome? (textFor name) ∧
    (i.value? name = firstText? name i.fields ↔ (firstText? name i.fields).isSome ∨
      ∀ s ∈ Units.singles (Units.seen name i.fields), s.1.name = name → s.2 = none) ∧
    (TextsAlike i.fields → i.value? name = firstText? name i.fields) :=
  ⟨Units.value?_eq name i.fields, Units.value?_eq_firstText?_iff,
    Units.value?_eq_firstText?_of_textsAlike⟩

/-- A field in a sequence, and another one of its name behind the sequence. -/
def twofold (inner outer : Option String) : Instance where
  id := ⟨1⟩
  template := { name := "N", fields := [] }
  fields := [
    .sequence [.single { name := "A", declaredType := "SyntaxToken" } inner],
    .single { name := "A", declaredType := "SyntaxToken" } outer]

theorem value?_twofold :
    TextsAlike (twofold (some "x") (some "x")).fields ∧
      (twofold (some "x") (some "x")).value? "A" = some "x" := by
  have halike : TextsAlike (twofold (some "x") (some "x")).fields := by
    unfold TextsAlike
    decide
  exact ⟨halike, (value?_exact _ "A").2.2 halike⟩

/-- **A later field may have its text taken for that of the first one**: the field in the sequence,
which has no text, comes first. -/
theorem value?_twofold_inner :
    firstText? "A" (twofold none (some "x")).fields = none ∧
      (twofold none (some "x")).value? "A" = some "x" := by
  decide

end Instance

end SyntaxGraph
