import Mathlib.Data.List.Forall2
import SyntaxGraph.Proofs.Schema.Attributes

/-!
# What a schema document declares

The elements of a schema document declare predefined, abstract and concrete kinds of nodes, and
`Field`, `Choice` and `Sequence` elements declare the units inside the last two. A declaration and
what it declares agree in their attributes, in their kinds and comments and, unit for unit and in
order, in what stands inside them. No text is set then, and every choice selects its first
alternative. Other elements declare nothing, whatever stands inside them.

The reader answers a document exactly when the root element declares it.
-/

namespace SyntaxGraph.Schema

/-! ### Answers of a sequence of steps -/

theorem bind_eq_ok_iff {x : Except ε α} {f : α → Except ε β} {b : β} :
    (x >>= f) = .ok b ↔ ∃ a, x = .ok a ∧ f a = .ok b := by
  constructor
  · exact exists_of_bind_eq_ok
  · rintro ⟨a, rfl, h⟩
    exact h

theorem map_eq_ok_iff {x : Except ε α} {f : α → β} {b : β} :
    x.map f = .ok b ↔ ∃ a, x = .ok a ∧ f a = b := by
  constructor
  · exact exists_of_map_eq_ok
  · rintro ⟨a, rfl, rfl⟩
    rfl

/-! ### Kinds -/

/-- The names that the `Kind` elements inside an element have, in order. Those without a name do not
count. -/
def SaysKinds (n : Xml.Node) (names : List String) : Prop :=
  List.Forall₂ (fun m name => m.attribute? "Name" = some name)
    (n.content.filter fun m => m.isNamed "Kind" ∧ m.attribute? "Name" ≠ none) names

theorem saysKinds_iff {n : Xml.Node} {names : List String} :
    SaysKinds n names ↔ kindNames n = names := by
  rw [SaysKinds, kindNames, Xml.Node.childrenNamed]
  induction n.content generalizing names with
  | nil => exact List.forall₂_nil_left_iff.trans eq_comm
  | cons m ms ih =>
    cases hkind : m.isNamed "Kind" with
    | false => simpa [hkind] using ih
    | true =>
      cases hname : m.attribute? "Name" with
      | none => simpa [hkind, hname] using ih
      | some name =>
        rw [List.filter_cons_of_pos (by simp [hkind, hname]), List.filter_cons_of_pos hkind,
          List.forall₂_cons_left_iff]
        simp only [List.filterMap_cons, hname, ih, Option.some.injEq]
        constructor
        · rintro ⟨_, rest, rfl, rfl, rfl⟩
          rfl
        · rintro rfl
          exact ⟨name, _, rfl, rfl, rfl⟩

/-! ### Comments -/

/-- The first of some nodes that is an element called `key`. -/
def FirstNamed (key : String) (ns : List Xml.Node) (m : Xml.Node) : Prop :=
  m.isNamed key = true ∧ ∃ before after, ns = before ++ m :: after ∧
    ∀ k ∈ before, k.isNamed key = false

theorem firstNamed_iff {n m : Xml.Node} {key : String} :
    FirstNamed key n.content m ↔ n.childNamed? key = some m := by
  simp [FirstNamed, Xml.Node.childNamed?, List.find?_eq_some_iff_append]

mutual

/-- The pieces of text inside a node, at any depth, in order. -/
def textsIn : Xml.Node → List String
  | .element _ _ content => textsInEach content
  | .text s => [s]

/-- The pieces of text inside each of the nodes, in order. -/
def textsInEach : List Xml.Node → List String
  | [] => []
  | n :: ns => textsIn n ++ textsInEach ns

end

mutual

theorem innerText_eq : ∀ n : Xml.Node, n.innerText = String.join (textsIn n)
  | .element name attributes content => by
    rw [Xml.Node.innerText, textsIn, innerTexts_eq content]
  | .text s => by
    rw [Xml.Node.innerText, textsIn, String.join_cons, String.join_nil, String.append_empty]

theorem innerTexts_eq : ∀ ns : List Xml.Node,
    Xml.Node.innerTexts ns = String.join (textsInEach ns)
  | [] => by
    rw [Xml.Node.innerTexts, textsInEach, String.join_nil]
  | n :: ns => by
    rw [Xml.Node.innerTexts, textsInEach, String.join_append, innerText_eq n, innerTexts_eq ns]

end

/-- The text of the first `summary` in the first `container` of an element, without the blanks at
its two ends. -/
def SaysSummary (n : Xml.Node) (container : String) (text : List Char) : Prop :=
  ∃ m summary, FirstNamed container n.content m ∧ FirstNamed "summary" m.content summary ∧
    Text.Trimmed text (String.join (textsIn summary))

/-- The comment that an element says: its summary, if there is anything in it. -/
def SaysComment (n : Xml.Node) (container : String) : Option String → Prop
  | some comment => comment ≠ "" ∧ SaysSummary n container comment.toList
  | none => ∀ text, SaysSummary n container text → text = []

section Comments

variable {n : Xml.Node} {container : String}

theorem saysSummary_iff {text : List Char} : SaysSummary n container text ↔
    ∃ summary, (n.childNamed? container).bind (·.childNamed? "summary") = some summary ∧
      Text.trimChars summary.innerText.toList = text := by
  simp only [SaysSummary, firstNamed_iff, Text.trimmed_iff, ← innerText_eq, Option.bind_eq_some_iff]
  constructor
  · rintro ⟨m, summary, hm, hsummary, htext⟩
    exact ⟨summary, ⟨m, hm, hsummary⟩, htext⟩
  · rintro ⟨summary, ⟨m, hm, hsummary⟩, htext⟩
    exact ⟨m, summary, hm, hsummary, htext⟩

theorem saysComment_iff {comment : Option String} :
    SaysComment n container comment ↔ summary? n container = comment := by
  have hsummary : summary? n container =
      ((n.childNamed? container).bind (·.childNamed? "summary")).bind fun summary =>
        if (Text.trim summary.innerText).isEmpty then none
        else some (Text.trim summary.innerText) := by
    rw [Option.bind_assoc]
    rfl
  have htrim : ∀ (s : Xml.Node) (text : String),
      Text.trimChars s.innerText.toList = text.toList ↔ Text.trim s.innerText = text := by
    intro s text
    rw [Text.trim, ← String.toList_inj, String.toList_ofList]
  rw [hsummary]
  cases comment with
  | none =>
    simp only [SaysComment, saysSummary_iff]
    cases (n.childNamed? container).bind (·.childNamed? "summary") with
    | none => simp
    | some summary => simp [Text.trim]
  | some comment =>
    simp only [SaysComment, saysSummary_iff, htrim]
    cases (n.childNamed? container).bind (·.childNamed? "summary") with
    | none => simp
    | some summary =>
      simp only [Option.some.injEq, exists_eq_left', Option.bind_some,
        Option.ite_none_left_eq_some, String.isEmpty_iff]
      constructor
      · rintro ⟨hne, rfl⟩
        exact ⟨hne, rfl⟩
      · rintro ⟨hne, rfl⟩
        exact ⟨hne, rfl⟩

end Comments
/-! ### Units -/

/-- A `Field` element and what it says of the field. -/
structure DeclaresField (n : Xml.Node) (f : FieldSpec) : Prop where
  name : n.attribute? "Name" = some f.name
  declaredType : f.declaredType = (n.attribute? "Type").getD ""
  optional : SaysTruth n "Optional" f.optional
  overrides : SaysTruth n "Override" f.overrides
  minCount : SaysCount n "MinCount" f.minCount
  allowTrailingSeparator : SaysTruth n "AllowTrailingSeparator" f.allowTrailingSeparator
  kinds : SaysKinds n f.kinds
  comment : SaysComment n "PropertyComment" f.comment

/-- The element is of a kind that declares a unit. -/
def isUnit (n : Xml.Node) : Bool :=
  n.isNamed "Field" || n.isNamed "Choice" || n.isNamed "Sequence"

theorem isUnit_of_isNamed {n : Xml.Node} (h : n.isNamed "Field" = true ∨
    n.isNamed "Choice" = true ∨ n.isNamed "Sequence" = true) : isUnit n = true := by
  rcases h with h | h | h <;> simp [isUnit, h]

/-- An element and the unit that it declares. -/
inductive DeclaresUnit : Xml.Node → FieldUnit → Prop where
  | field {n : Xml.Node} {f : FieldSpec} (hn : n.isNamed "Field" = true) (hf : DeclaresField n f) :
    DeclaresUnit n (.single f none)
  | choice {n : Xml.Node} {optional : Bool} {us : List FieldUnit} (hn : n.isNamed "Choice" = true)
    (hunits : List.Forall₂ DeclaresUnit (n.content.filter isUnit) us)
    (hoptional : SaysTruth n "Optional" optional) :
    DeclaresUnit n (.choice (n.attribute? "Name") optional us 0)
  | sequence {n : Xml.Node} {us : List FieldUnit} (hn : n.isNamed "Sequence" = true)
    (hunits : List.Forall₂ DeclaresUnit (n.content.filter isUnit) us) :
    DeclaresUnit n (.sequence us)

/-- The units that the content of an element declares. -/
def DeclaresUnits (ns : List Xml.Node) (us : List FieldUnit) : Prop :=
  List.Forall₂ DeclaresUnit (ns.filter isUnit) us

theorem eq_of_isNamed {n : Xml.Node} {a b : String} (ha : n.isNamed a = true)
    (hb : n.isNamed b = true) : a = b := by
  cases n with
  | text s => exact nomatch ha
  | element name attributes content =>
    have ha : name = a := by simpa [Xml.Node.isNamed] using ha
    have hb : name = b := by simpa [Xml.Node.isNamed] using hb
    exact ha.symm.trans hb

theorem isNamed_of_ne {n : Xml.Node} {a b : String} (ha : n.isNamed a = true) (hne : a ≠ b) :
    n.isNamed b = false := by
  rw [← Bool.not_eq_true]
  exact fun hb => hne (eq_of_isNamed ha hb)

section DeclaresUnit

variable {n : Xml.Node} {ns : List Xml.Node} {u : FieldUnit} {us : List FieldUnit}

theorem declaresUnit_field_iff (hn : n.isNamed "Field" = true) :
    DeclaresUnit n u ↔ ∃ f, DeclaresField n f ∧ u = .single f none := by
  constructor
  · rintro (⟨-, hf⟩ | ⟨hn', -, -⟩ | ⟨hn', -⟩)
    · exact ⟨_, hf, rfl⟩
    · exact absurd (eq_of_isNamed hn hn') (by decide)
    · exact absurd (eq_of_isNamed hn hn') (by decide)
  · rintro ⟨f, hf, rfl⟩
    exact .field hn hf

theorem declaresUnit_choice_iff (hn : n.isNamed "Choice" = true) :
    DeclaresUnit n u ↔ ∃ us, DeclaresUnits n.content us ∧ ∃ optional,
      SaysTruth n "Optional" optional ∧ u = .choice (n.attribute? "Name") optional us 0 := by
  constructor
  · rintro (⟨hn', -⟩ | ⟨-, hunits, hoptional⟩ | ⟨hn', -⟩)
    · exact absurd (eq_of_isNamed hn hn') (by decide)
    · exact ⟨_, hunits, _, hoptional, rfl⟩
    · exact absurd (eq_of_isNamed hn hn') (by decide)
  · rintro ⟨us, hunits, optional, hoptional, rfl⟩
    exact .choice hn hunits hoptional

theorem declaresUnit_sequence_iff (hn : n.isNamed "Sequence" = true) :
    DeclaresUnit n u ↔ ∃ us, DeclaresUnits n.content us ∧ u = .sequence us := by
  constructor
  · rintro (⟨hn', -⟩ | ⟨hn', -, -⟩ | ⟨-, hunits⟩)
    · exact absurd (eq_of_isNamed hn hn') (by decide)
    · exact absurd (eq_of_isNamed hn hn') (by decide)
    · exact ⟨_, hunits, rfl⟩
  · rintro ⟨us, hunits, rfl⟩
    exact .sequence hn hunits

theorem declaresUnits_cons_of_isUnit (hn : isUnit n = true) :
    DeclaresUnits (n :: ns) us ↔ ∃ u vs, DeclaresUnit n u ∧ DeclaresUnits ns vs ∧ us = u :: vs := by
  rw [DeclaresUnits, List.filter_cons_of_pos hn, List.forall₂_cons_left_iff]
  rfl

theorem declaresUnits_cons_of_not (hn : isUnit n = false) :
    DeclaresUnits (n :: ns) us ↔ DeclaresUnits ns us := by
  rw [DeclaresUnits, List.filter_cons_of_neg (by simp [hn])]
  rfl

theorem declaresUnits_nil : DeclaresUnits [] us ↔ us = [] :=
  List.forall₂_nil_left_iff

end DeclaresUnit

/-! ### Reading units -/

theorem readField_eq_ok_iff {n : Xml.Node} {u : FieldUnit} :
    readField n = .ok u ↔ ∃ f, DeclaresField n f ∧ u = .single f none := by
  simp only [readField, bind_eq_ok_iff, countAttribute_eq_ok_iff, requiredAttribute_eq_ok_iff,
    boolAttribute_eq_ok_iff]
  constructor
  · rintro ⟨minCount, hcount, name, hname, optional, hoptional, overrides, hoverrides, trailing,
      htrailing, hu⟩
    exact ⟨_, ⟨hname, rfl, hoptional, hoverrides, hcount, htrailing, saysKinds_iff.2 rfl,
      saysComment_iff.2 rfl⟩, (Except.ok.inj hu).symm⟩
  · rintro ⟨⟨name, declaredType, optional, overrides, minCount, trailing, kinds, comment⟩,
      ⟨hname, rfl, hoptional, hoverrides, hcount, htrailing, hkinds, hcomment⟩, rfl⟩
    obtain rfl := saysKinds_iff.1 hkinds
    obtain rfl := saysComment_iff.1 hcomment
    exact ⟨_, hcount, _, hname, _, hoptional, _, hoverrides, _, htrailing, rfl⟩

mutual

/-- What is read from an element is the unit that it declares, and from any other node nothing. -/
theorem readUnit_eq_ok_iff : ∀ (n : Xml.Node) (o : Option FieldUnit), readUnit n = .ok o ↔
    if isUnit n then ∃ u, DeclaresUnit n u ∧ some u = o else none = o
  | .text s, o => by
    rw [readUnit, Except.ok.injEq]
    rfl
  | .element name attributes content, o => by
    rw [readUnit]
    split
    · rename_i hname
      subst hname
      have hn : Xml.Node.isNamed "Field" (.element "Field" attributes content) = true := rfl
      rw [if_pos (isUnit_of_isNamed (.inl hn)), map_eq_ok_iff]
      simp only [readField_eq_ok_iff, declaresUnit_field_iff hn]
    · split
      · rename_i hname
        subst hname
        have hn : Xml.Node.isNamed "Choice" (.element "Choice" attributes content) = true := rfl
        rw [if_pos (isUnit_of_isNamed (.inr (.inl hn)))]
        simp only [bind_eq_ok_iff, readUnits_eq_ok_iff content, boolAttribute_eq_ok_iff,
          declaresUnit_choice_iff hn]
        constructor
        · rintro ⟨us, hunits, optional, hoptional, ho⟩
          exact ⟨_, ⟨us, hunits, optional, hoptional, rfl⟩, Except.ok.inj ho⟩
        · rintro ⟨_, ⟨us, hunits, optional, hoptional, rfl⟩, rfl⟩
          exact ⟨us, hunits, optional, hoptional, rfl⟩
      · split
        · rename_i hname
          subst hname
          have hn : Xml.Node.isNamed "Sequence" (.element "Sequence" attributes content) = true :=
            rfl
          rw [if_pos (isUnit_of_isNamed (.inr (.inr hn)))]
          simp only [bind_eq_ok_iff, readUnits_eq_ok_iff content, declaresUnit_sequence_iff hn]
          constructor
          · rintro ⟨us, hunits, ho⟩
            exact ⟨_, ⟨us, hunits, rfl⟩, Except.ok.inj ho⟩
          · rintro ⟨_, ⟨us, hunits, rfl⟩, rfl⟩
            exact ⟨us, hunits, rfl⟩
        · rename_i hfield hchoice hsequence
          have hother : isUnit (.element name attributes content) = false := by
            simp [isUnit, Xml.Node.isNamed, hfield, hchoice, hsequence]
          simp [hother]

/-- **The units that are read** are those that the content declares. -/
theorem readUnits_eq_ok_iff : ∀ (ns : List Xml.Node) (us : List FieldUnit),
    readUnits ns = .ok us ↔ DeclaresUnits ns us
  | [], us => by
    rw [readUnits, declaresUnits_nil, Except.ok.injEq, eq_comm]
  | n :: ns, us => by
    rw [readUnits]
    simp only [bind_eq_ok_iff, readUnit_eq_ok_iff n, readUnits_eq_ok_iff ns]
    cases hn : isUnit n with
    | true =>
      rw [declaresUnits_cons_of_isUnit hn]
      constructor
      · rintro ⟨_, ⟨u, hu, rfl⟩, vs, hvs, hus⟩
        exact ⟨u, vs, hu, hvs, (Except.ok.inj hus).symm⟩
      · rintro ⟨u, vs, hu, hvs, rfl⟩
        exact ⟨_, ⟨u, hu, rfl⟩, vs, hvs, rfl⟩
    | false =>
      rw [declaresUnits_cons_of_not hn]
      constructor
      · rintro ⟨_, rfl, vs, hvs, hus⟩
        exact Except.ok.inj hus ▸ hvs
      · intro hus
        exact ⟨none, rfl, us, hus, rfl⟩

end

/-! ### Kinds of nodes -/

/-- An element and the predefined kind of node that it declares. -/
structure DeclaresPredefined (n : Xml.Node) (p : PredefinedNode) : Prop where
  name : n.attribute? "Name" = some p.name
  base : p.base = n.attribute? "Base"

/-- An element and the abstract kind of node that it declares. -/
structure DeclaresAbstract (n : Xml.Node) (a : AbstractNode) : Prop where
  name : n.attribute? "Name" = some a.name
  base : a.base = n.attribute? "Base"
  fields : DeclaresUnits n.content a.fields
  typeComment : SaysComment n "TypeComment" a.typeComment

/-- An element and the concrete kind of node that it declares. -/
structure DeclaresTemplate (n : Xml.Node) (t : Template) : Prop where
  name : n.attribute? "Name" = some t.name
  base : t.base = n.attribute? "Base"
  kinds : SaysKinds n t.kinds
  fields : DeclaresUnits n.content t.fields
  typeComment : SaysComment n "TypeComment" t.typeComment
  factoryComment : SaysComment n "FactoryComment" t.factoryComment
  skipConvenienceFactories : SaysTruth n "SkipConvenienceFactories" t.skipConvenienceFactories

variable {n : Xml.Node}

theorem readPredefinedNode_eq_ok_iff {p : PredefinedNode} :
    readPredefinedNode n = .ok p ↔ DeclaresPredefined n p := by
  simp only [readPredefinedNode, bind_eq_ok_iff, requiredAttribute_eq_ok_iff]
  constructor
  · rintro ⟨name, hname, hp⟩
    obtain rfl := Except.ok.inj hp
    exact ⟨hname, rfl⟩
  · obtain ⟨name, base⟩ := p
    rintro ⟨hname, rfl⟩
    exact ⟨_, hname, rfl⟩

theorem readAbstractNode_eq_ok_iff {a : AbstractNode} :
    readAbstractNode n = .ok a ↔ DeclaresAbstract n a := by
  simp only [readAbstractNode, bind_eq_ok_iff, requiredAttribute_eq_ok_iff, readUnits_eq_ok_iff]
  constructor
  · rintro ⟨name, hname, fields, hfields, ha⟩
    obtain rfl := Except.ok.inj ha
    exact ⟨hname, rfl, hfields, saysComment_iff.2 rfl⟩
  · obtain ⟨name, base, fields, comment⟩ := a
    rintro ⟨hname, rfl, hfields, hcomment⟩
    obtain rfl := saysComment_iff.1 hcomment
    exact ⟨_, hname, _, hfields, rfl⟩

theorem readTemplate_eq_ok_iff {t : Template} :
    readTemplate n = .ok t ↔ DeclaresTemplate n t := by
  simp only [readTemplate, bind_eq_ok_iff, requiredAttribute_eq_ok_iff, readUnits_eq_ok_iff,
    boolAttribute_eq_ok_iff]
  constructor
  · rintro ⟨name, hname, fields, hfields, skip, hskip, ht⟩
    obtain rfl := Except.ok.inj ht
    exact ⟨hname, rfl, saysKinds_iff.2 rfl, hfields, saysComment_iff.2 rfl, saysComment_iff.2 rfl,
      hskip⟩
  · obtain ⟨name, base, kinds, fields, comment, factory, skip⟩ := t
    rintro ⟨hname, rfl, hkinds, hfields, hcomment, hfactory, hskip⟩
    obtain rfl := saysKinds_iff.1 hkinds
    obtain rfl := saysComment_iff.1 hcomment
    obtain rfl := saysComment_iff.1 hfactory
    exact ⟨_, hname, _, hfields, _, hskip, rfl⟩

/-! ### Documents -/

/-- The root element of a schema document, and the document that it declares. -/
structure Document.DeclaredBy (n : Xml.Node) (doc : Document) : Prop where
  root : doc.root = n.attribute? "Root"
  predefined : List.Forall₂ DeclaresPredefined (n.childrenNamed "PredefinedNode") doc.predefined
  abstractNodes : List.Forall₂ DeclaresAbstract (n.childrenNamed "AbstractNode") doc.abstractNodes
  nodes : List.Forall₂ DeclaresTemplate (n.childrenNamed "Node") doc.nodes

/-- The elements called `key` add to a list what they declare, in order. -/
def Adds (R : Xml.Node → α → Prop) (key : String) (ns : List Xml.Node) (as bs : List α) : Prop :=
  ∃ cs, List.Forall₂ R (ns.filter (·.isNamed key)) cs ∧ as ++ cs = bs

section Adds

variable {R : Xml.Node → α → Prop} {key : String} {ns : List Xml.Node} {as bs : List α}

theorem adds_to_nil_iff : Adds R key ns [] bs ↔ List.Forall₂ R (ns.filter (·.isNamed key)) bs := by
  simp [Adds]

theorem adds_nil_iff : Adds R key [] as bs ↔ as = bs := by
  constructor
  · rintro ⟨_, ⟨⟩, rfl⟩
    exact (List.append_nil as).symm
  · rintro rfl
    exact ⟨[], .nil, List.append_nil as⟩

theorem adds_cons_of_isNamed (hn : n.isNamed key = true) :
    Adds R key (n :: ns) as bs ↔ ∃ a, R n a ∧ Adds R key ns (as ++ [a]) bs := by
  rw [Adds, List.filter_cons_of_pos hn]
  constructor
  · rintro ⟨cs, hcs, rfl⟩
    obtain ⟨a, ds, ha, hds, rfl⟩ := List.forall₂_cons_left_iff.1 hcs
    exact ⟨a, ha, ds, hds, by simp⟩
  · rintro ⟨a, ha, cs, hcs, rfl⟩
    exact ⟨a :: cs, .cons ha hcs, by simp⟩

theorem adds_cons_of_not (hn : n.isNamed key = false) :
    Adds R key (n :: ns) as bs ↔ Adds R key ns as bs := by
  rw [Adds, List.filter_cons_of_neg (by simp [hn])]
  rfl

end Adds

theorem foldlM_addDeclaration_eq_ok_iff {ns : List Xml.Node} {doc doc' : Document} :
    ns.foldlM Document.addDeclaration doc = .ok doc' ↔ doc.root = doc'.root ∧
      Adds DeclaresPredefined "PredefinedNode" ns doc.predefined doc'.predefined ∧
      Adds DeclaresAbstract "AbstractNode" ns doc.abstractNodes doc'.abstractNodes ∧
      Adds DeclaresTemplate "Node" ns doc.nodes doc'.nodes := by
  -- a child has one name, so it adds to one of the three lists at most
  induction ns generalizing doc with
  | nil =>
    rw [adds_nil_iff, adds_nil_iff, adds_nil_iff]
    constructor
    · intro h
      obtain rfl := Except.ok.inj h
      exact ⟨rfl, rfl, rfl, rfl⟩
    · obtain ⟨root, ps, as, ts⟩ := doc
      rintro ⟨rfl, rfl, rfl, rfl⟩
      rfl
  | cons n ns ih =>
    rw [List.foldlM_cons, bind_eq_ok_iff]
    simp only [ih, Document.addDeclaration]
    split
    · rename_i hn
      rw [adds_cons_of_isNamed hn, adds_cons_of_not (isNamed_of_ne hn (by decide)),
        adds_cons_of_not (isNamed_of_ne hn (by decide))]
      simp only [map_eq_ok_iff, readPredefinedNode_eq_ok_iff]
      constructor
      · rintro ⟨_, ⟨p, hp, rfl⟩, hroot, hps, has, hts⟩
        exact ⟨hroot, ⟨p, hp, hps⟩, has, hts⟩
      · rintro ⟨hroot, ⟨p, hp, hps⟩, has, hts⟩
        exact ⟨_, ⟨p, hp, rfl⟩, hroot, hps, has, hts⟩
    · rename_i hp
      have hp : n.isNamed "PredefinedNode" = false := by simpa using hp
      rw [adds_cons_of_not hp]
      split
      · rename_i hn
        rw [adds_cons_of_isNamed hn, adds_cons_of_not (isNamed_of_ne hn (by decide))]
        simp only [map_eq_ok_iff, readAbstractNode_eq_ok_iff]
        constructor
        · rintro ⟨_, ⟨a, ha, rfl⟩, hroot, hps, has, hts⟩
          exact ⟨hroot, hps, ⟨a, ha, has⟩, hts⟩
        · rintro ⟨hroot, hps, ⟨a, ha, has⟩, hts⟩
          exact ⟨_, ⟨a, ha, rfl⟩, hroot, hps, has, hts⟩
      · rename_i ha
        have ha : n.isNamed "AbstractNode" = false := by simpa using ha
        rw [adds_cons_of_not ha]
        split
        · rename_i hn
          rw [adds_cons_of_isNamed hn]
          simp only [map_eq_ok_iff, readTemplate_eq_ok_iff]
          constructor
          · rintro ⟨_, ⟨t, ht, rfl⟩, hroot, hps, has, hts⟩
            exact ⟨hroot, hps, has, t, ht, hts⟩
          · rintro ⟨hroot, hps, has, t, ht, hts⟩
            exact ⟨_, ⟨t, ht, rfl⟩, hroot, hps, has, hts⟩
        · rename_i ht
          have ht : n.isNamed "Node" = false := by simpa using ht
          rw [adds_cons_of_not ht]
          simp

/-- **A document is read** exactly when the root element declares it. -/
theorem ofXml_eq_ok_iff {root : Xml.Node} (hroot : root.name = "Tree") {doc : Document} :
    Document.ofXml root = .ok doc ↔ doc.DeclaredBy root := by
  rw [Document.ofXml, if_pos hroot, foldlM_addDeclaration_eq_ok_iff, adds_to_nil_iff,
    adds_to_nil_iff, adds_to_nil_iff]
  constructor
  · rintro ⟨hroot, hps, has, hts⟩
    exact ⟨hroot.symm, hps, has, hts⟩
  · rintro ⟨hroot, hps, has, hts⟩
    exact ⟨hroot.symm, hps, has, hts⟩

end SyntaxGraph.Schema
