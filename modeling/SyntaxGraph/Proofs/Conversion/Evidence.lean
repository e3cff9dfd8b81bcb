import SyntaxGraph.Proofs.Conversion.Resolution

/-!
# What the tags of the children rule out

The tags of the direct children speak for a unit, against it, or say nothing of it. They speak
against a field that is required and not seen. A sequence is ruled out together with one of its
members. A choice is ruled out when something speaks against one alternative and nothing speaks for
any, also when of another alternative the tags say nothing.

So the tags do not rule out a unit that they realize, as long as in every choice they decide the
alternative that they realize, or decide none. Without this proviso they may: the alternative that
is there may be one of which tags say nothing, and then the choice is ruled out because of the
others.
-/

namespace SyntaxGraph.Conversion

/-! ### Fields -/

/-- A child with one of the tags of the field is there; for a node field without tags, any child
node. -/
def Seen (tags : ChildTags) (f : FieldSpec) : Prop :=
  (f.kind.isToken = true ∧ ∃ tag ∈ f.kinds, tag ∈ tags.tokens) ∨
    (f.kind.isNode = true ∧ ((∃ tag ∈ f.kinds, tag ∈ tags.nodes) ∨ f.kinds = [] ∧ tags.nodes ≠ []))

/-- Tags can tell whether the field is there: it carries nodes, or tokens of known tags. -/
def Tellable (f : FieldSpec) : Prop :=
  f.kind.isNode = true ∨ f.kind.isToken = true ∧ f.kinds ≠ []

instance (tags : ChildTags) (f : FieldSpec) : Decidable (Seen tags f) :=
  inferInstanceAs (Decidable (_ ∨ _))

instance (f : FieldSpec) : Decidable (Tellable f) :=
  inferInstanceAs (Decidable (_ ∨ _))

/-- As far as tags can tell, nothing that the field requires is missing. -/
def FieldRealized (tags : ChildTags) (f : FieldSpec) : Prop :=
  f.optional = true ∨ ¬ Tellable f ∨ Seen tags f

/-- The tags decide whether the field is there: they show it, or it is required. -/
def FieldDecided (tags : ChildTags) (f : FieldSpec) : Prop :=
  Seen tags f ∨ Tellable f ∧ f.optional = false

instance (tags : ChildTags) (f : FieldSpec) : Decidable (FieldRealized tags f) :=
  inferInstanceAs (Decidable (_ ∨ _))

instance (tags : ChildTags) (f : FieldSpec) : Decidable (FieldDecided tags f) :=
  inferInstanceAs (Decidable (_ ∨ _))

theorem seenAmong_eq_true_iff {kinds tags : List String} :
    seenAmong kinds tags = true ↔ ∃ tag ∈ kinds, tag ∈ tags := by
  simp [seenAmong]

theorem fieldEvidence_eq (tags : ChildTags) (f : FieldSpec) :
    fieldEvidence tags f =
      if Seen tags f then some true
      else if Tellable f ∧ f.optional = false then some false
      else none := by
  -- what counts as seen is looked up in one of the two lists of tags
  have key : ∀ seen : Bool, Tellable f → (seen = true ↔ Seen tags f) →
      (if seen || !f.optional then some seen else none) =
        if Seen tags f then some true
        else if Tellable f ∧ f.optional = false then some false
        else none := by
    intro seen htell hseen
    cases seen <;> cases f.optional <;> simp_all
  unfold fieldEvidence
  cases hnode : f.kind.isNode with
  | true =>
    have htoken := FieldKind.isToken_eq_false_of_isNode hnode
    simp only [hnode, htoken, Bool.false_and, Bool.false_or, Bool.false_eq_true, if_false, if_true]
    refine key _ (.inl hnode) ?_
    by_cases hkinds : f.kinds = []
    · simp [Seen, hnode, htoken, hkinds]
    · simp [Seen, hnode, htoken, hkinds, seenAmong_eq_true_iff]
  | false =>
    cases htoken : f.kind.isToken with
    | false => simp [Seen, Tellable, hnode, htoken]
    | true =>
      by_cases hkinds : f.kinds = []
      · simp [Seen, Tellable, hnode, htoken, hkinds]
      · have hempty : f.kinds.isEmpty = false := by simpa using hkinds
        simp only [htoken, hempty, Bool.and_false, Bool.true_or, Bool.false_eq_true, if_false,
          if_true]
        refine key _ (.inr ⟨htoken, hkinds⟩) ?_
        simp [Seen, hnode, htoken, seenAmong_eq_true_iff]

theorem fieldEvidence_eq_none_iff {tags : ChildTags} {f : FieldSpec} :
    fieldEvidence tags f = none ↔ ¬ FieldDecided tags f := by
  rw [fieldEvidence_eq, FieldDecided]
  by_cases hseen : Seen tags f
  · simp [hseen]
  · by_cases hrequired : Tellable f ∧ f.optional = false
    · simp [hseen, hrequired]
    · simp [hseen, hrequired]

theorem fieldEvidence_ne_some_false_iff {tags : ChildTags} {f : FieldSpec} :
    fieldEvidence tags f ≠ some false ↔ FieldRealized tags f := by
  rw [fieldEvidence_eq, FieldRealized]
  by_cases hseen : Seen tags f
  · simp [hseen]
  · by_cases htell : Tellable f
    · cases f.optional <;> simp [hseen, htell]
    · simp [hseen, htell]

/-! ### Units -/

/-- The tags decide whether one of the fields of the unit is there. -/
def Decided (tags : ChildTags) (u : FieldUnit) : Prop :=
  ∃ f ∈ Units.specs [u], FieldDecided tags f

instance (tags : ChildTags) (u : FieldUnit) : Decidable (Decided tags u) :=
  inferInstanceAs (Decidable (∃ f ∈ Units.specs [u], _))

/-- As far as tags can tell, the unit is there as the schema has it: no required field is missing,
of a sequence all members are there, and of a choice one alternative, or none if it is optional. -/
inductive Realizes (tags : ChildTags) : FieldUnit → Prop where
  | single {f : FieldSpec} {v : Option String} (h : FieldRealized tags f) :
    Realizes tags (.single f v)
  | sequence {cs : List FieldUnit} (h : ∀ u ∈ cs, Realizes tags u) : Realizes tags (.sequence cs)
  | absent {n : Option String} {cs : List FieldUnit} {i : Nat} : Realizes tags (.choice n true cs i)
  | choice {n : Option String} {o : Bool} {cs : List FieldUnit} {i : Nat} {u : FieldUnit}
    (hu : u ∈ cs) (h : Realizes tags u) : Realizes tags (.choice n o cs i)

/-- The unit is there as the schema has it, and the tags show which alternatives: in a choice they
decide the one that is there, or they decide none. -/
inductive RealizesOpenly (tags : ChildTags) : FieldUnit → Prop where
  | single {f : FieldSpec} {v : Option String} (h : FieldRealized tags f) :
    RealizesOpenly tags (.single f v)
  | sequence {cs : List FieldUnit} (h : ∀ u ∈ cs, RealizesOpenly tags u) :
    RealizesOpenly tags (.sequence cs)
  | choice {n : Option String} {o : Bool} {cs : List FieldUnit} {i : Nat} {u : FieldUnit}
    (hu : u ∈ cs) (h : RealizesOpenly tags u) (hd : Decided tags u) :
    RealizesOpenly tags (.choice n o cs i)
  | undecided {n : Option String} {o : Bool} {cs : List FieldUnit} {i : Nat}
    (h : ∀ u ∈ cs, ¬ Decided tags u) : RealizesOpenly tags (.choice n o cs i)

section Units

variable {tags : ChildTags}

theorem decisionsOf_eq_filterMap (us : List FieldUnit) :
    decisionsOf tags us = us.filterMap (evidence tags) := by
  induction us with
  | nil => rw [decisionsOf]; rfl
  | cons u us ih =>
    rw [decisionsOf, ih, List.filterMap_cons]
    cases evidence tags u <;> rfl

theorem decisionsOf_eq_nil_iff {us : List FieldUnit} :
    decisionsOf tags us = [] ↔ ∀ u ∈ us, evidence tags u = none := by
  rw [decisionsOf_eq_filterMap, List.filterMap_eq_nil_iff]

theorem mem_decisionsOf {us : List FieldUnit} {b : Bool} :
    b ∈ decisionsOf tags us ↔ ∃ u ∈ us, evidence tags u = some b := by
  rw [decisionsOf_eq_filterMap, List.mem_filterMap]

theorem evidence_sequence_eq_none_iff {cs : List FieldUnit} :
    evidence tags (.sequence cs) = none ↔ ∀ u ∈ cs, evidence tags u = none := by
  simp [evidence, decisionsOf_eq_nil_iff]

theorem evidence_choice_eq_none_iff {n : Option String} {o : Bool} {cs : List FieldUnit} {i : Nat} :
    evidence tags (.choice n o cs i) = none ↔ ∀ u ∈ cs, evidence tags u = none := by
  simp [evidence, decisionsOf_eq_nil_iff]

/-- A sequence is ruled out with one of its members. -/
theorem evidence_sequence_eq_false_iff {cs : List FieldUnit} :
    evidence tags (.sequence cs) = some false ↔ ∃ u ∈ cs, evidence tags u = some false := by
  rw [← mem_decisionsOf]
  by_cases hnil : decisionsOf tags cs = []
  · simp [evidence, hnil]
  · simp [evidence, hnil]

/-- A choice is spoken for with one of its alternatives. -/
theorem evidence_choice_eq_true_iff {n : Option String} {o : Bool} {cs : List FieldUnit} {i : Nat} :
    evidence tags (.choice n o cs i) = some true ↔ ∃ u ∈ cs, evidence tags u = some true := by
  rw [← mem_decisionsOf]
  by_cases hnil : decisionsOf tags cs = []
  · simp [evidence, hnil]
  · simp [evidence, hnil]

theorem mem_specs_iff (us : List FieldUnit) {f : FieldSpec} :
    f ∈ Units.specs us ↔ ∃ u ∈ us, f ∈ Units.specs [u] := by
  induction us with
  | nil => simp [Units.specs]
  | cons u us ih => simp [specs_cons u us, ih]

theorem exists_decided_iff {cs : List FieldUnit} :
    (∃ f ∈ Units.specs cs, FieldDecided tags f) ↔ ∃ u ∈ cs, Decided tags u := by
  simp only [mem_specs_iff cs, Decided]
  constructor
  · rintro ⟨f, ⟨u, hu, hf⟩, hd⟩
    exact ⟨u, hu, f, hf, hd⟩
  · rintro ⟨u, hu, f, hf, hd⟩
    exact ⟨f, ⟨u, hu, hf⟩, hd⟩

/-- The tags say nothing of a unit when they decide none of its fields. -/
theorem evidence_eq_none_iff {u : FieldUnit} : evidence tags u = none ↔ ¬ Decided tags u := by
  induction u using FieldUnit.induction with
  | single f v =>
    rw [evidence, fieldEvidence_eq_none_iff]
    simp [Decided, Units.specs, FieldUnit.singles]
  | choice n o cs i ih =>
    rw [evidence_choice_eq_none_iff, Decided, specs_choice, exists_decided_iff]
    simp only [not_exists, not_and]
    exact forall₂_congr ih
  | sequence cs ih =>
    rw [evidence_sequence_eq_none_iff, Decided, specs_sequence, exists_decided_iff]
    simp only [not_exists, not_and]
    exact forall₂_congr ih

theorem evidence_eq_true_iff {u : FieldUnit} :
    evidence tags u = some true ↔ evidence tags u ≠ some false ∧ Decided tags u := by
  cases h : evidence tags u with
  | none => simp [evidence_eq_none_iff.1 h]
  | some b =>
    have hd : Decided tags u := by
      rw [← Decidable.not_not (p := Decided tags u), ← evidence_eq_none_iff, h]
      simp
    cases b <;> simp [hd]

/-- **What is not ruled out.** By induction on the unit; a choice is not ruled out when the tags
speak for one of its alternatives or say nothing of any. -/
theorem evidence_ne_some_false_iff {u : FieldUnit} :
    evidence tags u ≠ some false ↔ RealizesOpenly tags u := by
  induction u using FieldUnit.induction with
  | single f v =>
    rw [evidence, fieldEvidence_ne_some_false_iff]
    constructor
    · exact .single
    · rintro ⟨h⟩
      exact h
  | sequence cs ih =>
    rw [ne_eq, evidence_sequence_eq_false_iff]
    simp only [not_exists, not_and]
    constructor
    · intro h
      exact .sequence fun u hu => (ih u hu).1 (h u hu)
    · rintro ⟨⟩ u hu
      rename_i h
      exact (ih u hu).2 (h u hu)
  | choice n o cs i ih =>
    have hcases : evidence tags (.choice n o cs i) ≠ some false ↔
        (∃ u ∈ cs, evidence tags u = some true) ∨ ∀ u ∈ cs, evidence tags u = none := by
      rw [← evidence_choice_eq_true_iff, ← evidence_choice_eq_none_iff]
      rcases evidence tags (.choice n o cs i) with _ | _ | _ <;> simp
    rw [hcases]
    constructor
    · rintro (⟨u, hu, h⟩ | h)
      · obtain ⟨hfalse, hd⟩ := evidence_eq_true_iff.1 h
        exact .choice hu ((ih u hu).1 hfalse) hd
      · exact .undecided fun u hu => evidence_eq_none_iff.1 (h u hu)
    · intro h
      cases h with
      | choice hu h hd => exact .inl ⟨_, hu, evidence_eq_true_iff.2 ⟨(ih _ hu).2 h, hd⟩⟩
      | undecided h => exact .inr fun u hu => evidence_eq_none_iff.2 (h u hu)

end Units

/-- **The tags do not rule out what they openly realize.** They speak for such a unit just when they
decide one of its fields, and otherwise they say nothing of it. -/
theorem evidence_of_realizesOpenly {tags : ChildTags} {u : FieldUnit}
    (h : RealizesOpenly tags u) :
    evidence tags u ≠ some false ∧ (evidence tags u = some true ↔ Decided tags u) := by
  have hfalse := evidence_ne_some_false_iff.2 h
  refine ⟨hfalse, ?_⟩
  rw [evidence_eq_true_iff]
  exact and_iff_right hfalse

/-- A word and, after it, some sign of which no tag is known, or a dot. -/
def markedWord : FieldUnit :=
  .sequence [
    .ofSpec { name := "Word", declaredType := "SyntaxToken", kinds := ["word"] },
    .choice none false [
      .ofSpec { name := "Sign", declaredType := "SyntaxToken" },
      .ofSpec { name := "Dot", declaredType := "SyntaxToken", kinds := ["dot"] }] 0]

/-- A word and, after it, perhaps a dot. -/
def dottedWord : FieldUnit :=
  .sequence [
    .ofSpec { name := "Word", declaredType := "SyntaxToken", kinds := ["word"] },
    .choice none true [
      .ofSpec { name := "Dot", declaredType := "SyntaxToken", kinds := ["dot"] }] 0]

/-- With a dot after the word, the tags decide the alternative that is there. -/
theorem evidence_markedWord :
    RealizesOpenly ⟨[], ["word", "dot"]⟩ markedWord ∧
      evidence ⟨[], ["word", "dot"]⟩ markedWord = some true := by
  have h : RealizesOpenly ⟨[], ["word", "dot"]⟩ markedWord := by
    refine .sequence ?_
    simp only [List.forall_mem_cons, List.not_mem_nil, false_imp_iff, implies_true, and_true]
    exact ⟨.single (by decide),
      .choice (List.mem_cons_of_mem _ List.mem_cons_self) (.single (by decide)) (by decide)⟩
  exact ⟨h, (evidence_of_realizesOpenly h).2.2 (by decide)⟩

/-- With another sign after the word, the unit is there as the schema has it, and yet the tags rule
it out, because there is no dot. The same happens to a word alone where the dot is optional. -/
theorem evidence_unmarkedWord :
    (Realizes ⟨[], ["word", "sign"]⟩ markedWord ∧
      evidence ⟨[], ["word", "sign"]⟩ markedWord = some false) ∧
    (Realizes ⟨[], ["word"]⟩ dottedWord ∧
      evidence ⟨[], ["word"]⟩ dottedWord = some false) := by
  refine ⟨⟨.sequence ?_, by decide⟩, ⟨.sequence ?_, by decide⟩⟩
  · simp only [List.forall_mem_cons, List.not_mem_nil, false_imp_iff, implies_true, and_true]
    exact ⟨.single (by decide), .choice List.mem_cons_self (.single (by decide))⟩
  · simp only [List.forall_mem_cons, List.not_mem_nil, false_imp_iff, implies_true, and_true]
    exact ⟨.single (by decide), .absent⟩

end SyntaxGraph.Conversion
