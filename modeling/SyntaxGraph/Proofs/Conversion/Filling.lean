import SyntaxGraph.Proofs.Conversion.Choices

/-!
# What filling does to an instance

Filling an instance from a tree node is two passes over its units: one that sets texts and one that
selects alternatives. Neither looks at what the other writes. The pass over texts reads the names of
fields and the slots of the node, and the pass over choices reads the bare form of the alternatives
and the tags of the node's children. So the passes can change places, each does nothing when it is
made again, and filling twice from one node is the same as filling once.

At every path the result is known: a field takes the text that the node offers for its name, a
choice takes its first alternative that the tags speak for, and everything else stays.
-/

namespace SyntaxGraph.Conversion

open SyntaxGraph.Units (unitAt? selectedAt?)

/-! ### Passes that change places -/

/-- The answer depends on the bare form of a unit only. -/
def ReadsBareForm (accept : FieldUnit → Bool) : Prop :=
  ∀ u v : FieldUnit, u.bare = v.bare → accept u = accept v

theorem readsBareForm_looksLike (tags : ChildTags) : ReadsBareForm (looksLike tags) :=
  fun _ _ => looksLike_congr tags

section Passes

variable {accept : FieldUnit → Bool}

mutual

theorem settleUnit_mapUnitTexts (h : ReadsBareForm accept)
    (text : FieldSpec → Option String → Option String) : ∀ u : FieldUnit,
    settleUnit accept (mapUnitTexts text u) = mapUnitTexts text (settleUnit accept u)
  | .single f v => by simp only [settleUnit, mapUnitTexts]
  | .choice n o cs i => by
    have hfirst : (mapTexts text cs).findIdx? accept = cs.findIdx? accept := by
      rw [mapTexts_eq_map, List.findIdx?_map]
      exact findIdx?_congr fun u _ => h _ u (bare_mapUnitTexts text u)
    simp only [settleUnit, mapUnitTexts, settleUnits_mapTexts h text cs, hfirst]
  | .sequence cs => by simp only [settleUnit, mapUnitTexts, settleUnits_mapTexts h text cs]

/-- Setting texts and selecting alternatives can change places. -/
theorem settleUnits_mapTexts (h : ReadsBareForm accept)
    (text : FieldSpec → Option String → Option String) : ∀ us : List FieldUnit,
    settleUnits accept (mapTexts text us) = mapTexts text (settleUnits accept us)
  | [] => by simp only [settleUnits, mapTexts]
  | u :: us => by
    simp only [settleUnits, mapTexts, settleUnit_mapUnitTexts h text u,
      settleUnits_mapTexts h text us]

end

mutual

theorem settleUnit_settleUnit (h : ReadsBareForm accept) : ∀ u : FieldUnit,
    settleUnit accept (settleUnit accept u) = settleUnit accept u
  | .single f v => by simp only [settleUnit]
  | .choice n o cs i => by
    have hfirst : (settleUnits accept cs).findIdx? accept = cs.findIdx? accept := by
      rw [settleUnits_eq_map, List.findIdx?_map]
      exact findIdx?_congr fun u _ => h _ u (bare_settleUnit accept u)
    have hagain : (cs.findIdx? accept).getD ((cs.findIdx? accept).getD i) =
        (cs.findIdx? accept).getD i := by
      cases cs.findIdx? accept <;> rfl
    simp only [settleUnit, settleUnits_settleUnits h cs, hfirst, hagain]
  | .sequence cs => by simp only [settleUnit, settleUnits_settleUnits h cs]

/-- Selecting alternatives again changes nothing. -/
theorem settleUnits_settleUnits (h : ReadsBareForm accept) : ∀ us : List FieldUnit,
    settleUnits accept (settleUnits accept us) = settleUnits accept us
  | [] => by simp only [settleUnits]
  | u :: us => by
    simp only [settleUnits, settleUnit_settleUnit h u, settleUnits_settleUnits h us]

end

end Passes

theorem filledText_filledText (n : Tree.Node) (names : List String) (f : FieldSpec)
    (v : Option String) :
    filledText n names f (filledText n names f v) = filledText n names f v := by
  unfold filledText
  split
  · cases slotText n f.name <;> rfl
  · rfl

theorem tokenFieldNames_congr {us vs : List FieldUnit} (h : Units.bare us = Units.bare vs) :
    Units.tokenFieldNames us = Units.tokenFieldNames vs := by
  unfold Units.tokenFieldNames Units.tokenFields
  rw [← specs_bare us, ← specs_bare vs, h]

/-! ### Filling as two passes -/

section Filling

variable (i : Instance) (n : Tree.Node)

theorem fillValues_eq :
    fillValues i n =
      { i with
        fields := settleUnits (looksLike (.ofNode n))
          (mapTexts (filledText n (Units.tokenFieldNames i.fields)) i.fields) } := by
  rw [fillValues, resolve_eq, fillTexts_eq]

theorem template_fillValues : (fillValues i n).template = i.template := by
  rw [fillValues_eq]

/-- Filling changes texts and selections only. -/
theorem bare_fillValues : Units.bare (fillValues i n).fields = Units.bare i.fields := by
  rw [fillValues_eq, bare_settleUnits, bare_mapTexts]

/-- **Filling again from the same node changes nothing.** -/
theorem fillValues_again : fillValues (fillValues i n) n = fillValues i n := by
  have hnames : Units.tokenFieldNames (fillValues i n).fields = Units.tokenFieldNames i.fields :=
    tokenFieldNames_congr (bare_fillValues i n)
  have hreads := readsBareForm_looksLike (.ofNode n)
  rw [fillValues_eq (fillValues i n), hnames, fillValues_eq i n]
  simp only [settleUnits_mapTexts hreads, settleUnits_settleUnits hreads, mapTexts_mapTexts,
    filledText_filledText]

/-- The text that a node offers for the fields of a name: that of its slot, if one of the fields of
the name carries text. -/
def offeredText (name : String) : Option String :=
  if ∃ f ∈ Units.specs i.fields, f.kind.isToken = true ∧ f.name = name then slotText n name
  else none

theorem filledText_eq (f : FieldSpec) (v : Option String) :
    filledText n (Units.tokenFieldNames i.fields) f v = (offeredText i n f.name).or v := by
  have hmem : f.name ∈ Units.tokenFieldNames i.fields ↔
      ∃ g ∈ Units.specs i.fields, g.kind.isToken = true ∧ g.name = f.name := by
    simp [Units.tokenFieldNames, Units.tokenFields, Units.mem_distinct, and_assoc]
  simp only [filledText, offeredText, hmem]
  split <;> rfl

variable {i n}

/-- A field takes the text that is offered for its name, or keeps its own. -/
theorem unitAt?_fillValues_single {path : List Nat} {f : FieldSpec} {v : Option String}
    (h : unitAt? i.fields path = some (.single f v)) :
    unitAt? (fillValues i n).fields path = some (.single f ((offeredText i n f.name).or v)) := by
  rw [fillValues_eq, unitAt?_settleUnits, unitAt?_mapTexts, h]
  simp only [Option.map_some, mapUnitTexts, settleUnit, filledText_eq]

/-- A choice takes its first alternative that the tags speak for, or keeps its selection. -/
theorem selectedAt?_fillValues {path : List Nat} {name : Option String} {optional : Bool}
    {alternatives : List FieldUnit} {own : Nat}
    (h : unitAt? i.fields path = some (.choice name optional alternatives own)) :
    (fillValues i n).selectedAt? path =
      some ((alternatives.findIdx? fun u =>
        decide (evidence (.ofNode n) u = some true)).getD own) := by
  have hfirst : alternatives.findIdx? (looksLike (.ofNode n)) =
      alternatives.findIdx? fun u => decide (evidence (.ofNode n) u = some true) :=
    findIdx?_congr fun u _ => looksLike_eq_decide (.ofNode n) u
  rw [Instance.selectedAt?, fillValues_eq, Units.selectedAt?_eq, unitAt?_settleUnits,
    unitAt?_mapTexts, h]
  simp only [Option.map_some, Option.bind_some, mapUnitTexts, settleUnit, FieldUnit.selected?,
    findIdx?_looksLike_mapTexts, hfirst]

end Filling

/-- **Filling is exact and idempotent**, whatever texts and selections the instance has. It keeps
the id, the template and the form of the units. Every field, in whatever alternative it stands,
takes the text that the node offers for its name, and keeps its own when there is none. Every choice
takes its first alternative that the tags of the children speak for, and keeps its selection when
there is none. Filling again from the same node changes nothing. -/
theorem fillValues_exact (i : Instance) (n : Tree.Node) :
    (fillValues i n).id = i.id ∧ (fillValues i n).template = i.template ∧
      Units.bare (fillValues i n).fields = Units.bare i.fields ∧
      (∀ path f v, unitAt? i.fields path = some (.single f v) →
        unitAt? (fillValues i n).fields path =
          some (.single f ((offeredText i n f.name).or v))) ∧
      (∀ path name optional alternatives own,
        unitAt? i.fields path = some (.choice name optional alternatives own) →
          (fillValues i n).selectedAt? path = some ((alternatives.findIdx? fun u =>
            decide (evidence (.ofNode n) u = some true)).getD own)) ∧
      fillValues (fillValues i n) n = fillValues i n :=
  ⟨id_fillValues i n, template_fillValues i n, bare_fillValues i n,
    fun _ _ _ => unitAt?_fillValues_single, fun _ _ _ _ _ => selectedAt?_fillValues,
    fillValues_again i n⟩

/-- An instance that was filled before, with a selection beyond its alternatives. The name of the
first field is also that of a field for nodes. -/
def usedDraft : Instance where
  id := ⟨7⟩
  template := { name := "Draft", fields := [] }
  fields := [
    .choice none false [
      .sequence [
        .single { name := "Name", declaredType := "SyntaxToken" } (some "old"),
        .single { name := "Mark", declaredType := "SyntaxToken", kinds := ["plus"] } (some "+")],
      .single { name := "Mark", declaredType := "SyntaxToken", kinds := ["minus"] } none] 5,
    .single { name := "Name", declaredType := "NameSyntax" } none]

/-- A node with a name and a missing minus. -/
def namedScrap : Tree.Node :=
  .mk "scrap" [("Name", .token { tag := "word", text := "new" }),
    ("Mark", .token { tag := "minus", missing := true })]

/-- The new name goes into both fields of the name; the missing minus speaks for the second
alternative and leaves the old mark where it is. -/
theorem fillValues_usedDraft :
    unitAt? usedDraft.fields [1] =
        some (.single { name := "Name", declaredType := "NameSyntax" } none) ∧
      unitAt? (fillValues usedDraft namedScrap).fields [1] =
        some (.single { name := "Name", declaredType := "NameSyntax" } (some "new")) ∧
      unitAt? (fillValues usedDraft namedScrap).fields [0, 0, 1] =
        some (.single { name := "Mark", declaredType := "SyntaxToken", kinds := ["plus"] }
          (some "+")) ∧
      (fillValues usedDraft namedScrap).selectedAt? [0] = some 1 ∧
      fillValues (fillValues usedDraft namedScrap) namedScrap =
        fillValues usedDraft namedScrap := by
  obtain ⟨-, -, -, htexts, hchoices, hagain⟩ := fillValues_exact usedDraft namedScrap
  have hname : offeredText usedDraft namedScrap "Name" = some "new" := by decide
  have hmark : offeredText usedDraft namedScrap "Mark" = none := by decide
  refine ⟨rfl, ?_, ?_, ?_, hagain⟩
  · rw [htexts [1] _ _ rfl, hname]
    rfl
  · rw [htexts [0, 0, 1] _ _ rfl, hmark]
    rfl
  · rw [hchoices [0] _ _ _ _ rfl]
    decide

end SyntaxGraph.Conversion
