import SyntaxGraph.Proofs.Conversion.Choices
import SyntaxGraph.Proofs.Graph.Edits

/-!
# Instances keep to their template

An instance is faithful to its template when its units differ from the template's in texts and
selections only, fields of the same name have the same text, and every choice selects one of its
alternatives. New instances of a bare template are faithful, and so are those of a conversion; setting
a text and selecting an alternative that is there keeps an instance faithful.

A pass over a forest that gives fields of one name the same text keeps texts alike, and one that
selects accepted alternatives keeps selections within reach. Nothing else is needed of a conversion.
-/

namespace SyntaxGraph

namespace Units

/-- Fields of the same name have the same text, in whatever alternatives they stand. -/
def TextsAlike (us : List FieldUnit) : Prop :=
  ∀ s ∈ singles us, ∀ s' ∈ singles us, s.1.name = s'.1.name → s.2 = s'.2

/-- Every choice selects one of its alternatives, or the first when it has none. -/
def WithinReach (us : List FieldUnit) : Prop :=
  ∀ path name optional alternatives index,
    unitAt? us path = some (.choice name optional alternatives index) →
      index < alternatives.length ∨ alternatives = [] ∧ index = 0

/-! ### Bare forests -/

mutual

theorem text_of_mem_singles_bare_unit : ∀ {u : FieldUnit} {s : FieldSpec × Option String},
    s ∈ u.bare.singles → s.2 = none
  | .single f v, s, h => by
    simp only [FieldUnit.bare, FieldUnit.singles, List.mem_singleton] at h
    rw [h]
  | .choice n o cs i, s, h => by
    simp only [FieldUnit.bare, FieldUnit.singles] at h
    exact text_of_mem_singles_bare h
  | .sequence cs, s, h => by
    simp only [FieldUnit.bare, FieldUnit.singles] at h
    exact text_of_mem_singles_bare h

theorem text_of_mem_singles_bare : ∀ {us : List FieldUnit} {s : FieldSpec × Option String},
    s ∈ singles (bare us) → s.2 = none
  | [], s, h => by simp [bare] at h
  | u :: us, s, h => by
    rw [bare, singles_cons, List.mem_append] at h
    rcases h with h | h
    · exact text_of_mem_singles_bare_unit h
    · exact text_of_mem_singles_bare h

end

theorem textsAlike_of_bare {us : List FieldUnit} (h : bare us = us) : TextsAlike us := by
  intro s hs s' hs' _
  rw [← h] at hs hs'
  rw [text_of_mem_singles_bare hs, text_of_mem_singles_bare hs']

theorem withinReach_of_bare {us : List FieldUnit} (h : bare us = us) : WithinReach us := by
  intro path name optional alternatives index hat
  have hbare := unitAt?_bare us path
  rw [h, hat, Option.map_some, FieldUnit.bare] at hbare
  obtain ⟨halternatives, rfl⟩ : alternatives = bare alternatives ∧ index = 0 := by
    simpa using hbare
  cases alternatives with
  | nil => exact .inr ⟨rfl, rfl⟩
  | cons u us => exact .inl (Nat.succ_pos _)

/-- Forests of the same bare form have choices at the same paths, with equally many alternatives. -/
theorem exists_choice_of_bare_eq {us vs : List FieldUnit} (h : bare vs = bare us) {path : List Nat}
    {name : Option String} {optional : Bool} {alternatives : List FieldUnit} {index : Nat}
    (hat : unitAt? vs path = some (.choice name optional alternatives index)) :
    ∃ alternatives' index', unitAt? us path = some (.choice name optional alternatives' index') ∧
      alternatives'.length = alternatives.length := by
  have hbare : (unitAt? us path).map FieldUnit.bare =
      some (.choice name optional (bare alternatives) 0) := by
    rw [← unitAt?_bare, ← h, unitAt?_bare, hat, Option.map_some, FieldUnit.bare]
  obtain ⟨u, hu, hbare⟩ := Option.map_eq_some_iff.1 hbare
  cases u with
  | single f v => simp [FieldUnit.bare] at hbare
  | sequence cs => simp [FieldUnit.bare] at hbare
  | choice n o cs i =>
    simp only [FieldUnit.bare, FieldUnit.choice.injEq, and_true] at hbare
    obtain ⟨rfl, rfl, hcs⟩ := hbare
    refine ⟨cs, i, hu, ?_⟩
    rw [bare_eq_map, bare_eq_map] at hcs
    simpa using congrArg List.length hcs

end Units

namespace Conversion

open SyntaxGraph.Units (unitAt? selectedAt? TextsAlike WithinReach)

/-! ### Passes over a forest -/

section Passes

variable (text : FieldSpec → Option String → Option String)

mutual

theorem singles_mapUnitTexts : ∀ u : FieldUnit,
    (mapUnitTexts text u).singles = u.singles.map fun s => (s.1, text s.1 s.2)
  | .single f v => by simp only [mapUnitTexts, FieldUnit.singles, List.map_cons, List.map_nil]
  | .choice n o cs i => by simp only [mapUnitTexts, FieldUnit.singles, singles_mapTexts cs]
  | .sequence cs => by simp only [mapUnitTexts, FieldUnit.singles, singles_mapTexts cs]

theorem singles_mapTexts : ∀ us : List FieldUnit,
    Units.singles (mapTexts text us) = (Units.singles us).map fun s => (s.1, text s.1 s.2)
  | [] => by simp only [mapTexts, Units.singles_nil, List.map_nil]
  | u :: us => by
    simp only [mapTexts, Units.singles_cons, List.map_append, singles_mapUnitTexts u,
      singles_mapTexts us]

end

variable (accept : FieldUnit → Bool)

mutual

theorem singles_settleUnit : ∀ u : FieldUnit, (settleUnit accept u).singles = u.singles
  | .single f v => by simp only [settleUnit]
  | .choice n o cs i => by simp only [settleUnit, FieldUnit.singles, singles_settleUnits cs]
  | .sequence cs => by simp only [settleUnit, FieldUnit.singles, singles_settleUnits cs]

theorem singles_settleUnits : ∀ us : List FieldUnit,
    Units.singles (settleUnits accept us) = Units.singles us
  | [] => by simp only [settleUnits]
  | u :: us => by
    simp only [settleUnits, Units.singles_cons, singles_settleUnit u, singles_settleUnits us]

end

variable {text accept} {us : List FieldUnit}

theorem textsAlike_mapTexts (h : TextsAlike us)
    (htext : ∀ f g v, f.name = g.name → text f v = text g v) : TextsAlike (mapTexts text us) := by
  intro s hs s' hs' hname
  rw [singles_mapTexts] at hs hs'
  obtain ⟨r, hr, rfl⟩ := List.mem_map.1 hs
  obtain ⟨r', hr', rfl⟩ := List.mem_map.1 hs'
  have heq : r.2 = r'.2 := h r hr r' hr' hname
  simp only [heq]
  exact htext r.1 r'.1 r'.2 hname

theorem textsAlike_settleUnits (h : TextsAlike us) : TextsAlike (settleUnits accept us) := by
  unfold TextsAlike
  rwa [singles_settleUnits]

theorem withinReach_mapTexts (h : WithinReach us) : WithinReach (mapTexts text us) := by
  intro path name optional alternatives index hat
  rw [unitAt?_mapTexts] at hat
  obtain ⟨u, hu, hchoice⟩ := Option.map_eq_some_iff.1 hat
  cases u with
  | single f v => simp [mapUnitTexts] at hchoice
  | sequence cs => simp [mapUnitTexts] at hchoice
  | choice n o cs i =>
    simp only [mapUnitTexts, FieldUnit.choice.injEq] at hchoice
    obtain ⟨-, -, rfl, rfl⟩ := hchoice
    simpa [mapTexts_eq_map] using h path n o cs i hu

/-- A pass that selects accepted alternatives selects alternatives. -/
theorem withinReach_settleUnits (h : WithinReach us) : WithinReach (settleUnits accept us) := by
  intro path name optional alternatives index hat
  rw [unitAt?_settleUnits] at hat
  obtain ⟨u, hu, hchoice⟩ := Option.map_eq_some_iff.1 hat
  cases u with
  | single f v => simp [settleUnit] at hchoice
  | sequence cs => simp [settleUnit] at hchoice
  | choice n o cs i =>
    simp only [settleUnit, FieldUnit.choice.injEq] at hchoice
    obtain ⟨-, -, rfl, rfl⟩ := hchoice
    cases hfirst : cs.findIdx? accept with
    | none => simpa [settleUnits_eq_map] using h path n o cs i hu
    | some j =>
      have hlt : j < cs.length := (List.findIdx?_eq_some_iff_getElem.1 hfirst).1
      left
      simpa [settleUnits_eq_map] using hlt

end Passes

/-! ### A single decision -/

/-- Changing one entry in a way that `g` does not see. -/
theorem map_modify_eq {α β : Type} {f : α → α} {g : α → β} (h : ∀ a, g (f a) = g a) (as : List α)
    (i : Nat) : (as.modify i f).map g = as.map g := by
  induction as generalizing i with
  | nil => rw [List.modify_nil]
  | cons a as ih =>
    cases i with
    | zero => rw [List.modify_zero_cons, List.map_cons, List.map_cons, h]
    | succ i => rw [List.modify_succ_cons, List.map_cons, List.map_cons, ih]

theorem singles_withDecision (us : List FieldUnit) (path : List Nat) (index : Nat) :
    Units.singles (withDecision us (path, index)) = Units.singles us := by
  have hflat : ∀ vs : List FieldUnit, Units.singles vs = (vs.map FieldUnit.singles).flatten := by
    intro vs
    induction vs with
    | nil => simp
    | cons v vs ih => rw [Units.singles_cons, ih, List.map_cons, List.flatten_cons]
  induction path generalizing us with
  | nil => rw [withDecision_nil]
  | cons i path ih =>
    rw [withDecision_cons, hflat, hflat, map_modify_eq fun u => ?_]
    cases path with
    | nil => cases u <;> rfl
    | cons j path =>
      cases u with
      | single f v => rfl
      | choice n o cs k => simp only [decideUnit, FieldUnit.withChildren, FieldUnit.singles,
          FieldUnit.children, ih]
      | sequence cs => simp only [decideUnit, FieldUnit.withChildren, FieldUnit.singles,
          FieldUnit.children, ih]

theorem withDecision_of_some {us vs : List FieldUnit} {path : List Nat} {index : Nat}
    (h : Units.withChoice? us index path = some vs) : withDecision us (path, index) = vs := by
  simp only [withDecision, h, Option.getD_some]

theorem textsAlike_of_withChoice? {us vs : List FieldUnit} {path : List Nat} {index : Nat}
    (h : TextsAlike us) (hvs : Units.withChoice? us index path = some vs) : TextsAlike vs := by
  unfold TextsAlike
  rwa [← withDecision_of_some hvs, singles_withDecision]

theorem withinReach_of_withChoice? {us vs : List FieldUnit} {path : List Nat} {index : Nat}
    (h : WithinReach us) (hvs : Units.withChoice? us index path = some vs)
    {name : Option String} {optional : Bool} {alternatives : List FieldUnit} {k : Nat}
    (hat : unitAt? us path = some (.choice name optional alternatives k))
    (hlt : index < alternatives.length) : WithinReach vs := by
  have hselected : selectedAt? us path = some k := by rw [Units.selectedAt?_eq, hat]; rfl
  intro q n o cs j hq
  -- the choice stood at the path before, with equally many alternatives
  obtain ⟨cs', j', hq', hlength⟩ := Units.exists_choice_of_bare_eq (Units.bare_of_withChoice? hvs) hq
  have hj : selectedAt? vs q = some j := by rw [Units.selectedAt?_eq, hq]; rfl
  rw [← withDecision_of_some hvs, selectedAt?_withDecision hselected] at hj
  by_cases hpath : q = path
  · rw [if_pos hpath] at hj
    subst hpath
    obtain rfl : index = j := Option.some.inj hj
    rw [hat] at hq'
    simp only [Option.some.injEq, FieldUnit.choice.injEq] at hq'
    obtain ⟨-, -, rfl, -⟩ := hq'
    exact .inl (hlength ▸ hlt)
  · rw [if_neg hpath, Units.selectedAt?_eq, hq'] at hj
    obtain rfl : j' = j := by simpa [FieldUnit.selected?] using hj
    rcases h q n o cs' j' hq' with hlt | ⟨rfl, rfl⟩
    · exact .inl (hlength ▸ hlt)
    · exact .inr ⟨List.length_eq_zero_iff.1 hlength.symm, rfl⟩

end Conversion

/-! ### Faithful instances -/

/-- The instance differs from its template in texts and selections only, its texts are alike and its
selections within reach. -/
structure Instance.Faithful (i : Instance) : Prop where
  shape : Units.bare i.fields = Units.bare i.template.fields
  texts : Units.TextsAlike i.fields
  selections : Units.WithinReach i.fields

/-- How one instance comes from another by an update: a text is set, or an alternative that is there
is selected. -/
inductive Instance.Update (i : Instance) : Instance → Prop where
  | text (field : String) (value : Option String) : Update i (i.withValue field value)
  | selection {j : Instance} {path : List Nat} {index : Nat} {name : Option String} {optional : Bool}
    {alternatives : List FieldUnit} {k : Nat} (hj : i.withChoice? path index = some j)
    (hat : Units.unitAt? i.fields path = some (.choice name optional alternatives k))
    (hlt : index < alternatives.length) : Update i j

namespace Instance

open Conversion

/-- A new instance of a bare template is faithful. -/
theorem faithful_stamp {t : Template} (h : Units.bare t.fields = t.fields) (counter : Counter) :
    (stamp t counter).1.Faithful :=
  ⟨rfl, Units.textsAlike_of_bare h, Units.withinReach_of_bare h⟩

theorem template_of_update {i j : Instance} (h : i.Update j) : j.template = i.template := by
  cases h with
  | text field value => rfl
  | selection hj hat hlt => exact template_of_withChoice? hj

/-- **An update keeps an instance faithful.** -/
theorem Faithful.update {i j : Instance} (hi : i.Faithful) (h : i.Update j) : j.Faithful := by
  cases h with
  | text field value =>
    simp only [withValue, withValue_eq_mapTexts]
    refine ⟨?_, textsAlike_mapTexts hi.texts ?_, withinReach_mapTexts hi.selections⟩
    · rw [bare_mapTexts]
      exact hi.shape
    · intro f g v hname
      rw [hname]
  | selection hj hat hlt =>
    obtain ⟨us, hus, rfl⟩ := Option.map_eq_some_iff.1 hj
    exact ⟨(Units.bare_of_withChoice? hus).trans hi.shape, textsAlike_of_withChoice? hi.texts hus,
      withinReach_of_withChoice? hi.selections hus hat hlt⟩

end Instance

namespace Conversion

/-- **The instance of a converted node is faithful**, if its template is bare. -/
theorem faithful_of_convertNode {c : Schema.Catalog} {n : Tree.Node} {t : Template}
    {counter : Counter} {node : ConvertedNode} (ht : c.templateForTag? n.tag = some t)
    (hbare : Units.bare t.fields = t.fields) (h : (convertNode c n counter).1 = some node) :
    node.state.Faithful := by
  have hfields := fields_of_convertNode ht h
  have hfilled : ∀ f g v, f.name = g.name → filledText n (Units.tokenFieldNames t.fields) f v =
      filledText n (Units.tokenFieldNames t.fields) g v := by
    intro f g v hname
    unfold filledText
    rw [hname]
  refine ⟨?_, ?_, ?_⟩
  · rw [template_of_convertNode ht h, hfields, bare_settleUnits, bare_settleUnits, bare_mapTexts]
  · rw [hfields]
    exact textsAlike_settleUnits (textsAlike_settleUnits
      (textsAlike_mapTexts (Units.textsAlike_of_bare hbare) hfilled))
  · rw [hfields]
    exact withinReach_settleUnits (withinReach_settleUnits
      (withinReach_mapTexts (Units.withinReach_of_bare hbare)))

end Conversion

end SyntaxGraph
