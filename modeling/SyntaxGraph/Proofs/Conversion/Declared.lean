import Mathlib.Data.List.Forall2
import SyntaxGraph.Proofs.Conversion.Meaning
import SyntaxGraph.Proofs.Conversion.Resolution

/-!
# What conversion reads of a tree

Of a node, conversion reads the tag, the texts and the child nodes in the fields of the template, and
one thing more: the tags of all direct children, in whatever field they stand, because they speak for
the alternatives of choices. Two trees that agree in this are converted alike.

So a field that the template does not declare may be taken away or added, as long as no field below a
choice recognizes what stands in it. Without this proviso it may not: a token in such a field can
speak for an alternative that the node does not have.
-/

namespace SyntaxGraph.Conversion

open Schema (Catalog)

/-! ### Fields below choices -/

mutual

/-- The fields that stand below a choice of a unit, at any depth. -/
def unitChoiceSpecs : FieldUnit → List FieldSpec
  | .single .. => []
  | .choice _ _ cs _ => Units.specs cs
  | .sequence cs => choiceSpecs cs

/-- The fields that stand below a choice of a forest, at any depth. -/
def choiceSpecs : List FieldUnit → List FieldSpec
  | [] => []
  | u :: us => unitChoiceSpecs u ++ choiceSpecs us

end

mutual

theorem mem_specs_of_mem_unitChoiceSpecs {f : FieldSpec} : ∀ {u : FieldUnit},
    f ∈ unitChoiceSpecs u → f ∈ Units.specs [u]
  | .single .., h => by simp [unitChoiceSpecs] at h
  | .choice n o cs i, h => by
    rw [specs_choice]
    rwa [unitChoiceSpecs] at h
  | .sequence cs, h => by
    rw [specs_sequence]
    rw [unitChoiceSpecs] at h
    exact mem_specs_of_mem_choiceSpecs h

theorem mem_specs_of_mem_choiceSpecs {f : FieldSpec} : ∀ {us : List FieldUnit},
    f ∈ choiceSpecs us → f ∈ Units.specs us
  | [], h => by simp [choiceSpecs] at h
  | u :: us, h => by
    rw [specs_cons]
    rw [choiceSpecs] at h
    rcases List.mem_append.1 h with h | h
    · exact List.mem_append_left _ (mem_specs_of_mem_unitChoiceSpecs h)
    · exact List.mem_append_right _ (mem_specs_of_mem_choiceSpecs h)

end

theorem specs_mapTexts (text : FieldSpec → Option String → Option String) (us : List FieldUnit) :
    Units.specs (mapTexts text us) = Units.specs us := by
  rw [← specs_bare, bare_mapTexts, specs_bare]

mutual

theorem unitChoiceSpecs_mapUnitTexts (text : FieldSpec → Option String → Option String) :
    ∀ u : FieldUnit, unitChoiceSpecs (mapUnitTexts text u) = unitChoiceSpecs u
  | .single f v => by simp only [mapUnitTexts, unitChoiceSpecs]
  | .choice n o cs i => by simp only [mapUnitTexts, unitChoiceSpecs, specs_mapTexts]
  | .sequence cs => by simp only [mapUnitTexts, unitChoiceSpecs, choiceSpecs_mapTexts text cs]

theorem choiceSpecs_mapTexts (text : FieldSpec → Option String → Option String) :
    ∀ us : List FieldUnit, choiceSpecs (mapTexts text us) = choiceSpecs us
  | [] => by simp only [mapTexts]
  | u :: us => by
    simp only [mapTexts, choiceSpecs, unitChoiceSpecs_mapUnitTexts text u,
      choiceSpecs_mapTexts text us]

end

/-! ### Tags that say the same -/

section Tags

variable {tags tags' : ChildTags}

mutual

/-- What is said of a unit is known from what is said of its fields. -/
theorem evidence_congr : ∀ {u : FieldUnit},
    (∀ f ∈ Units.specs [u], fieldEvidence tags f = fieldEvidence tags' f) →
      evidence tags u = evidence tags' u
  | .single f v, h => by
    simp only [evidence]
    exact h f (by simp [Units.specs, FieldUnit.singles])
  | .choice n o cs i, h => by
    rw [specs_choice] at h
    simp only [evidence, decisionsOf_congr h]
  | .sequence cs, h => by
    rw [specs_sequence] at h
    simp only [evidence, decisionsOf_congr h]

theorem decisionsOf_congr : ∀ {us : List FieldUnit},
    (∀ f ∈ Units.specs us, fieldEvidence tags f = fieldEvidence tags' f) →
      decisionsOf tags us = decisionsOf tags' us
  | [], _ => by simp only [decisionsOf]
  | u :: us, h => by
    rw [specs_cons] at h
    simp only [decisionsOf, evidence_congr fun f hf => h f (List.mem_append_left _ hf),
      decisionsOf_congr fun f hf => h f (List.mem_append_right _ hf)]

end

mutual

/-- Which alternatives are taken is known from what is said of the fields below choices. -/
theorem settleUnit_looksLike_congr : ∀ {u : FieldUnit},
    (∀ f ∈ unitChoiceSpecs u, fieldEvidence tags f = fieldEvidence tags' f) →
      settleUnit (looksLike tags) u = settleUnit (looksLike tags') u
  | .single f v, _ => by simp only [settleUnit]
  | .choice n o cs i, h => by
    rw [unitChoiceSpecs] at h
    have hfirst : cs.findIdx? (looksLike tags) = cs.findIdx? (looksLike tags') := by
      refine findIdx?_congr fun u hu => ?_
      unfold looksLike
      rw [evidence_congr fun f hf => h f (mem_specs_of_mem hu hf)]
    -- all fields of the alternatives stand below this choice, also those below an inner one
    have hbelow : settleUnits (looksLike tags) cs = settleUnits (looksLike tags') cs :=
      settleUnits_looksLike_congr fun f hf => h f (mem_specs_of_mem_choiceSpecs hf)
    simp only [settleUnit, hfirst, hbelow]
  | .sequence cs, h => by
    rw [unitChoiceSpecs] at h
    simp only [settleUnit, settleUnits_looksLike_congr h]

theorem settleUnits_looksLike_congr : ∀ {us : List FieldUnit},
    (∀ f ∈ choiceSpecs us, fieldEvidence tags f = fieldEvidence tags' f) →
      settleUnits (looksLike tags) us = settleUnits (looksLike tags') us
  | [], _ => by simp only [settleUnits]
  | u :: us, h => by
    rw [choiceSpecs] at h
    simp only [settleUnits, settleUnit_looksLike_congr fun f hf => h f (List.mem_append_left _ hf),
      settleUnits_looksLike_congr fun f hf => h f (List.mem_append_right _ hf)]

end

end Tags

/-! ### Trees that agree -/

/-- The tags of the direct children say the same of every field that stands below a choice. -/
def SameSigns (t : Template) (n m : Tree.Node) : Prop :=
  ∀ f ∈ choiceSpecs t.fields, fieldEvidence (.ofNode n) f = fieldEvidence (.ofNode m) f

instance (t : Template) (n m : Tree.Node) : Decidable (SameSigns t n m) :=
  inferInstanceAs (Decidable (∀ f ∈ choiceSpecs t.fields, _))

/-- The nodes agree in what conversion reads: in the tag and, when it has a template, in the texts and,
node by node, the child nodes of its fields and in the signs for its choices. -/
inductive Agree (c : Catalog) : Tree.Node → Tree.Node → Prop where
  | skipped {n m : Tree.Node} (htag : m.tag = n.tag) (ht : c.templateForTag? n.tag = none) :
    Agree c n m
  | covered {n m : Tree.Node} {t : Template} (htag : m.tag = n.tag)
    (ht : c.templateForTag? n.tag = some t)
    (htexts : ∀ name ∈ Units.tokenFieldNames t.fields, slotText n name = slotText m name)
    (hchildren : ∀ name ∈ Units.nodeFieldNames t.fields,
      List.Forall₂ (Agree c) (n.childrenOf name) (m.childrenOf name))
    (hsigns : SameSigns t n m) : Agree c n m

section Agree

variable {c : Catalog}

/-- Induction over trees that agree: what is to be shown may be taken for granted of the child
nodes. -/
theorem Agree.induction {motive : Tree.Node → Tree.Node → Prop}
    (skipped : ∀ {n m : Tree.Node}, m.tag = n.tag → c.templateForTag? n.tag = none → motive n m)
    (covered : ∀ {n m : Tree.Node} {t : Template}, m.tag = n.tag →
      c.templateForTag? n.tag = some t →
      (∀ name ∈ Units.tokenFieldNames t.fields, slotText n name = slotText m name) →
      (∀ name ∈ Units.nodeFieldNames t.fields,
        List.Forall₂ motive (n.childrenOf name) (m.childrenOf name)) →
      SameSigns t n m → motive n m)
    {n m : Tree.Node} (h : Agree c n m) : motive n m := by
  cases h with
  | skipped htag ht => exact skipped htag ht
  | covered htag ht htexts hchildren hsigns =>
    refine covered htag ht htexts (fun name hname => ?_) hsigns
    have hall := hchildren name hname
    -- pairs of the zipped lists are seen to be children, which makes the recursion go down
    refine List.forall₂_iff_zip.2 ⟨hall.length_eq, fun hab => ?_⟩
    have hlt := Tree.Node.sizeOf_lt_of_mem_childrenOf (List.of_mem_zip hab).1
    exact Agree.induction skipped covered (List.forall₂_zip hall hab)
termination_by sizeOf n

theorem Agree.refl (c : Catalog) (n : Tree.Node) : Agree c n n := by
  cases ht : c.templateForTag? n.tag with
  | none => exact .skipped rfl ht
  | some t =>
    refine .covered rfl ht (fun _ _ => rfl) (fun name _ => ?_) fun _ _ => rfl
    refine List.forall₂_same.2 fun m hm => ?_
    have hlt := Tree.Node.sizeOf_lt_of_mem_childrenOf hm
    exact Agree.refl c m
termination_by sizeOf n

/-! ### Trees that agree are converted alike -/

variable {n m : Tree.Node} {t : Template}

theorem fillTexts_congr {i : Instance}
    (h : ∀ name ∈ Units.tokenFieldNames i.fields, slotText n name = slotText m name) :
    fillTexts i n = fillTexts i m := by
  have htext : filledText n (Units.tokenFieldNames i.fields) =
      filledText m (Units.tokenFieldNames i.fields) := by
    funext f v
    unfold filledText
    split
    · rename_i hf
      rw [h f.name hf]
    · rfl
  rw [fillTexts_eq, fillTexts_eq, htext]

theorem fillValues_congr {i : Instance} (hfields : i.fields = t.fields)
    (htexts : ∀ name ∈ Units.tokenFieldNames t.fields, slotText n name = slotText m name)
    (hsigns : SameSigns t n m) : fillValues i n = fillValues i m := by
  rw [← hfields] at htexts
  unfold fillValues
  rw [fillTexts_congr htexts, resolve_eq, resolve_eq]
  congr 1
  refine settleUnits_looksLike_congr ?_
  rw [fillTexts_eq, choiceSpecs_mapTexts, hfields]
  exact hsigns

theorem inTurn_congr {f : α → Counter → β × Counter} {as bs : List α}
    (h : List.Forall₂ (fun a b => f a = f b) as bs) : inTurn f as = inTurn f bs := by
  induction h with
  | nil => rfl
  | cons hab _ ih =>
    funext counter
    simp only [inTurn, hab, ih]

theorem flatMap_congr_of_forall₂ {f : α → List β} {as bs : List α}
    (h : List.Forall₂ (fun a b => f a = f b) as bs) : as.flatMap f = bs.flatMap f := by
  induction h with
  | nil => rfl
  | cons hab _ ih => rw [List.flatMap_cons, List.flatMap_cons, hab, ih]

theorem fieldsInTurn_congr {f g : String → Counter → List ConvertedNode × Counter}
    {names : List String} (h : ∀ name ∈ names, f name = g name) :
    fieldsInTurn f names = fieldsInTurn g names := by
  induction names with
  | nil => rfl
  | cons name names ih =>
    funext counter
    simp only [fieldsInTurn, h name List.mem_cons_self,
      ih fun k hk => h k (List.mem_cons_of_mem name hk)]

theorem Agree.convertNode_eq (h : Agree c n m) : convertNode c n = convertNode c m := by
  refine Agree.induction (motive := fun n m => convertNode c n = convertNode c m) ?_ ?_ h
  · intro n m htag ht
    funext counter
    rw [convertNode_of_none ht, convertNode_of_none (by rwa [htag])]
  · intro n m t htag ht htexts hchildren hsigns
    have hfields : fieldsInTurn (convertChildren c n) (Units.nodeFieldNames t.fields) =
        fieldsInTurn (convertChildren c m) (Units.nodeFieldNames t.fields) := by
      refine fieldsInTurn_congr fun name hname => ?_
      funext counter
      simp only [convertChildren, inTurn_congr (hchildren name hname)]
    funext counter
    have hvalues : fillValues (Instance.stamp t counter).1 n =
        fillValues (Instance.stamp t counter).1 m := fillValues_congr rfl htexts hsigns
    rw [convertNode_of_some ht, convertNode_of_some (by rwa [htag])]
    simp only [hfields, hvalues]

/-- The same tags are visited in the same order. -/
theorem Agree.tags_visits (h : Agree c n m) :
    (visits c n).map (·.tag) = (visits c m).map (·.tag) := by
  refine Agree.induction
    (motive := fun n m => (visits c n).map (·.tag) = (visits c m).map (·.tag)) ?_ ?_ h
  · intro n m htag ht
    have ht' : c.templateForTag? m.tag = none := by rwa [htag]
    simp [visits_of_none ht, visits_of_none ht', htag]
  · intro n m t htag ht _ hchildren _
    have hbelow : ∀ name ∈ Units.nodeFieldNames t.fields,
        (visitsBelow c n name).map (·.tag) = (visitsBelow c m name).map (·.tag) := by
      intro name hname
      unfold visitsBelow
      rw [List.map_flatMap, List.map_flatMap]
      exact flatMap_congr_of_forall₂ (hchildren name hname)
    rw [visits_of_some ht, visits_of_some (by rwa [htag]), List.map_cons, List.map_cons, htag,
      List.map_flatMap, List.map_flatMap]
    exact congrArg _ (List.flatMap_congr hbelow)

/-- A report says nothing of the visited nodes but their tags. -/
theorem reportOn_congr {ns ms : List Tree.Node} (h : ns.map (·.tag) = ms.map (·.tag)) :
    reportOn c ns = reportOn c ms := by
  have hreport : ∀ ks : List Tree.Node, reportOn c ks =
      ⟨(ks.map (·.tag)).countP fun tag => (c.templateForTag? tag).isSome,
        (ks.map (·.tag)).filter fun tag => !(c.templateForTag? tag).isSome⟩ := by
    intro ks
    rw [List.countP_map, List.filter_map]
    rfl
  rw [hreport, hreport, h]

end Agree

end SyntaxGraph.Conversion

/-! ### Fields that the template does not declare -/

namespace SyntaxGraph.Tree.Node

/-- The node without its slots of a name. -/
def without (n : Node) (name : String) : Node :=
  .mk n.tag (n.fields.filter (·.1 != name))

theorem field?_without (n : Node) {name key : String} (h : key ≠ name) :
    (n.without name).field? key = n.field? key := by
  cases n with
  | mk tag fields =>
    simp only [without, field?, Node.fields]
    induction fields with
    | nil => rfl
    | cons e fields ih =>
      obtain ⟨k, slot⟩ := e
      by_cases hk : k = name
      · have hne : (key == name) = false := by simpa using h
        simpa [hk, List.lookup_cons, hne] using ih
      · simp [hk, List.lookup_cons, ih]

theorem childrenOf_without (n : Node) {name key : String} (h : key ≠ name) :
    (n.without name).childrenOf key = n.childrenOf key := by
  simp only [childrenOf, field?_without n h]

end SyntaxGraph.Tree.Node

namespace SyntaxGraph.Conversion

open Schema (Catalog)

/-- A child with the tag speaks for the field. -/
def recognizes (f : FieldSpec) (tag : String) : Bool :=
  f.kinds.contains tag || (f.kind.isNode && f.kinds.isEmpty)

theorem seenAmong_eq_any (kinds tags : List String) :
    seenAmong kinds tags = tags.any kinds.contains := by
  rw [Bool.eq_iff_iff]
  simp only [seenAmong, List.any_eq_true, List.contains_iff_mem]
  exact ⟨fun ⟨k, hk, htag⟩ => ⟨k, htag, hk⟩, fun ⟨k, htag, hk⟩ => ⟨k, hk, htag⟩⟩

theorem seenAmong_eq_any_recognizes {f : FieldSpec} (hkind : f.kind.isToken = true)
    (tags : List String) : seenAmong f.kinds tags = tags.any (recognizes f) := by
  have hnode : f.kind.isNode = false := by
    cases hnode : f.kind.isNode with
    | false => rfl
    | true => simp [FieldKind.isToken_eq_false_of_isNode hnode] at hkind
  have hrecognizes : recognizes f = f.kinds.contains := by
    funext tag
    simp [recognizes, hnode]
  rw [seenAmong_eq_any, hrecognizes]

/-- A node field without kinds recognizes every node. -/
theorem seen_eq_any_recognizes {f : FieldSpec} (hkind : f.kind.isNode = true) (tags : List String) :
    (if f.kinds.isEmpty then !tags.isEmpty else seenAmong f.kinds tags) =
      tags.any (recognizes f) := by
  split
  · rename_i hempty
    have hrecognizes : recognizes f = fun _ => true := by
      funext tag
      simp [recognizes, hkind, hempty]
    cases tags with
    | nil => rfl
    | cons tag tags => simp [hrecognizes]
  · rename_i hempty
    have hrecognizes : recognizes f = f.kinds.contains := by
      funext tag
      simp [recognizes, hempty]
    rw [seenAmong_eq_any, hrecognizes]

/-- What the tags say of a field depends only on whether one of them speaks for it. -/
theorem fieldEvidence_congr {tags tags' : ChildTags} {f : FieldSpec}
    (htokens : f.kind.isToken = true →
      tags.tokens.any (recognizes f) = tags'.tokens.any (recognizes f))
    (hnodes : f.kind.isNode = true →
      tags.nodes.any (recognizes f) = tags'.nodes.any (recognizes f)) :
    fieldEvidence tags f = fieldEvidence tags' f := by
  unfold fieldEvidence
  by_cases htoken : f.kind.isToken = true
  · simp only [htoken, if_true, seenAmong_eq_any_recognizes htoken, htokens htoken]
  · by_cases hnode : f.kind.isNode = true
    · simp only [htoken, seen_eq_any_recognizes hnode, hnodes hnode]
      rfl
    · simp only [htoken, hnode]
      rfl

/-- Nothing in the slot speaks for the field. -/
def Overlooks (f : FieldSpec) (slot : Tree.Slot) : Prop :=
  (f.kind.isToken = true → ∀ token ∈ slot.childTokens, recognizes f token.tag = false) ∧
    (f.kind.isNode = true → ∀ m ∈ slot.childNodes, recognizes f m.tag = false)

/-- What is not recognized can be left out. -/
theorem any_flatMap_without {n : Tree.Node} {name : String} (p : String → Bool)
    (tags : Tree.Slot → List String)
    (h : ∀ slot, (name, slot) ∈ n.fields → ∀ tag ∈ tags slot, p tag = false) :
    (n.fields.flatMap fun e => tags e.2).any p =
      ((n.without name).fields.flatMap fun e => tags e.2).any p := by
  rw [Bool.eq_iff_iff]
  simp only [List.any_eq_true, List.mem_flatMap]
  constructor
  · rintro ⟨tag, ⟨e, he, htag⟩, hp⟩
    refine ⟨tag, ⟨e, List.mem_filter.2 ⟨he, ?_⟩, htag⟩, hp⟩
    have hne : e.1 ≠ name := by
      rintro rfl
      simp [h e.2 he tag htag] at hp
    simpa using hne
  · rintro ⟨tag, ⟨e, he, htag⟩, hp⟩
    exact ⟨tag, ⟨e, List.mem_of_mem_filter he, htag⟩, hp⟩

theorem fieldEvidence_without {n : Tree.Node} {name : String} {f : FieldSpec}
    (h : ∀ slot, (name, slot) ∈ n.fields → Overlooks f slot) :
    fieldEvidence (.ofNode n) f = fieldEvidence (.ofNode (n.without name)) f := by
  refine fieldEvidence_congr (fun htoken => ?_) fun hnode => ?_
  · refine any_flatMap_without (recognizes f) (fun slot => slot.childTokens.map (·.tag)) ?_
    intro slot hslot tag htag
    obtain ⟨token, htoken', rfl⟩ := List.mem_map.1 htag
    exact (h slot hslot).1 htoken token htoken'
  · refine any_flatMap_without (recognizes f) (fun slot => slot.childNodes.map (·.tag)) ?_
    intro slot hslot tag htag
    obtain ⟨m, hm, rfl⟩ := List.mem_map.1 htag
    exact (h slot hslot).2 hnode m hm

/-- A field that the template does not declare can be taken away or added, if no field below a choice
recognizes what stands in it. -/
theorem agree_without {c : Catalog} {n : Tree.Node} {t : Template} {name : String}
    (ht : c.templateForTag? n.tag = some t) (hname : name ∉ (Units.specs t.fields).map (·.name))
    (h : ∀ f ∈ choiceSpecs t.fields, ∀ slot, (name, slot) ∈ n.fields → Overlooks f slot) :
    Agree c n (n.without name) := by
  -- token fields and node fields are both among the declared ones
  have hne : ∀ {p : FieldSpec → Bool} {key : String},
      key ∈ Units.distinct (((Units.specs t.fields).filter p).map (·.name)) → key ≠ name := by
    rintro p key hkey rfl
    obtain ⟨f, hf, hfname⟩ := List.mem_map.1 (Units.mem_distinct.1 hkey)
    exact hname (hfname ▸ List.mem_map_of_mem (List.mem_of_mem_filter hf))
  refine .covered rfl ht (fun key hkey => ?_) (fun key hkey => ?_) fun f hf => ?_
  · unfold slotText
    rw [n.field?_without (hne hkey)]
  · rw [n.childrenOf_without (hne hkey)]
    exact List.forall₂_same.2 fun m _ => Agree.refl c m
  · exact fieldEvidence_without (h f hf)

/-! ### The whole conversion -/

/-- **Conversion reads no more than this.** Trees that agree in tags, in the texts and child nodes of
declared fields and in the signs for choices have the same conversion: the same instances with the
same ids, texts and selections, the same children and the same report, and it takes the same ids. -/
theorem convert_eq_of_agree {c : Catalog} {n m : Tree.Node} (h : Agree c n m) (counter : Counter) :
    convert c n counter = convert c m counter := by
  rw [convert_eq, convert_eq, h.convertNode_eq, reportOn_congr h.tags_visits]

/-- A kind of node with one of two tokens, told apart by their tags, and any number of nodes inside. -/
def markTemplate : Template where
  name := "Mark"
  kinds := ["mark"]
  fields := [
    .choice none false [
      .ofSpec { name := "Plus", declaredType := "SyntaxToken", kinds := ["plus"] },
      .ofSpec { name := "Minus", declaredType := "SyntaxToken", kinds := ["minus"] }] 0,
    .ofSpec { name := "Inside", declaredType := "SyntaxList<MarkSyntax>" }]

/-- The schema with this one kind of node. -/
def marks : Catalog :=
  .ofDocument { nodes := [markTemplate] }

/-- A node with the second token and, in a field that the schema does not have, a note. -/
def notedMark (tag : String) : Tree.Node :=
  .mk "mark" [("Minus", .token { tag := "minus", text := "-" }),
    ("Note", .token { tag := tag, text := "?" })]

/-- A node with another one inside. -/
def markAround (n : Tree.Node) : Tree.Node :=
  .mk "mark" [("Inside", .nodes [n])]

theorem templateForTag?_marks : marks.templateForTag? "mark" = some markTemplate := by
  rw [marks, Catalog.templateForTag?_ofDocument]
  rfl

/-- A note that no field recognizes can be taken away, also further inside. -/
theorem convert_markAround :
    Agree marks (markAround (notedMark "remark"))
        (markAround ((notedMark "remark").without "Note")) ∧
      convert marks (markAround (notedMark "remark")) {} =
        convert marks (markAround ((notedMark "remark").without "Note")) {} := by
  have hslot : ∀ slot, ("Note", slot) ∈ (notedMark "remark").fields →
      slot = .token { tag := "remark", text := "?" } := by
    simp [notedMark, Tree.Node.fields]
  have hrecognizes : ∀ f ∈ choiceSpecs markTemplate.fields, recognizes f "remark" = false := by
    decide
  have hinside : Agree marks (notedMark "remark") ((notedMark "remark").without "Note") := by
    refine agree_without templateForTag?_marks (by decide) fun f hf slot hmem => ?_
    rw [hslot slot hmem]
    exact ⟨by simpa [Tree.Slot.childTokens] using fun _ => hrecognizes f hf,
      by simp [Tree.Slot.childNodes]⟩
  have hnames : Units.nodeFieldNames markTemplate.fields = ["Inside"] := by decide
  have hagree : Agree marks (markAround (notedMark "remark"))
      (markAround ((notedMark "remark").without "Note")) := by
    refine .covered rfl templateForTag?_marks (by decide) (fun name hname => ?_) (by decide)
    rw [hnames, List.mem_singleton] at hname
    subst hname
    exact .cons hinside .nil
  exact ⟨hagree, convert_eq_of_agree hagree {}⟩

/-- A note that looks like the first token makes the node take the first alternative, which it does
not have. -/
theorem selected_notedMark :
    marks.templateForTag? (notedMark "plus").tag = some markTemplate ∧
      "Note" ∉ (Units.specs markTemplate.fields).map (·.name) ∧
      (convert marks (notedMark "plus") {}).1.root.bind (·.state.selectedAt? [0]) = some 0 ∧
      (convert marks ((notedMark "plus").without "Note") {}).1.root.bind
        (·.state.selectedAt? [0]) = some 1 := by
  refine ⟨templateForTag?_marks, by decide, ?_, ?_⟩
  · rw [convert_eq, convertNode_of_some (n := notedMark "plus") templateForTag?_marks]
    rfl
  · rw [convert_eq,
      convertNode_of_some (n := (notedMark "plus").without "Note") templateForTag?_marks]
    rfl

end SyntaxGraph.Conversion
