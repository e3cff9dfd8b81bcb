import SyntaxGraph.Proofs.Conversion.Shape
import SyntaxGraph.Proofs.Emission.OfConverted
import SyntaxGraph.Synchronizer

/-!
# The text of a tree

Conversion and emission in one: the text that a tree comes to, written directly from the tree and its
templates. There are no ids, no edges and no stacks in it; a choice writes the alternative that it
finally takes. The main statement says that converting a tree, making a graph of it and emitting the
graph gives this text.
-/

namespace SyntaxGraph.Conversion

open Schema (Catalog Document)
open Emission (childrenText commasToSpaces tokenText tokenListText fieldOf classify_written renderUnit
  renderUnits renderUnits_eq_map convertedText convertedFieldText convertedText_eq)

/-! ### Writing a tree directly -/

/-- The alternative has a node field, at any depth, with a child that has a template. -/
def ownsCovered (c : Catalog) (n : Tree.Node) (alternative : FieldUnit) : Bool :=
  (Units.nodeFields [alternative]).any fun f => hasCoveredChild c n f.name

/-- The alternative that a choice takes: the first that has a child with a template, or else the
first that the tags of the children speak for, or else the first. -/
def alternativeFor (c : Catalog) (n : Tree.Node) (alternatives : List FieldUnit) : Nat :=
  (alternatives.findIdx? (ownsCovered c n)).getD
    ((alternatives.findIdx? (looksLike (.ofNode n))).getD 0)

mutual

/-- What a unit of a template writes for a tree node, given what each node field writes. -/
def unitTextFor (c : Catalog) (n : Tree.Node) (nodeField : FieldSpec → String) : FieldUnit → String
  | .single f _ =>
    match f.kind with
    | .token => (slotText n f.name).elim "" (· ++ " ")
    | .tokenList => (slotText n f.name).elim "" (commasToSpaces · ++ " ")
    | .singleNode | .nodeList | .separatedNodeList => nodeField f
    | .unknown => ""
  | .choice _ _ cs _ => ((unitTextsFor c n nodeField cs)[alternativeFor c n cs]?).getD ""
  | .sequence cs => String.join (unitTextsFor c n nodeField cs)

/-- What the units of a template write for a tree node, one by one. -/
def unitTextsFor (c : Catalog) (n : Tree.Node) (nodeField : FieldSpec → String) :
    List FieldUnit → List String
  | [] => []
  | u :: us => unitTextFor c n nodeField u :: unitTextsFor c n nodeField us

end

/-- The text of a tree: nothing for a node without a template, and otherwise what the units of its
template write. A node field writes the children in its slot that have a template; a field without a
name writes nothing. -/
def treeText (c : Catalog) (n : Tree.Node) : String :=
  match c.templateForTag? n.tag with
  | none => ""
  | some t => String.join (unitTextsFor c n (fun f => if f.name.isEmpty then "" else
      childrenText f.kind (((n.childrenOf f.name).filter (hasTemplate c)).attach.map fun m =>
        treeText c m.1)) t.fields)
termination_by sizeOf n
decreasing_by exact Tree.Node.sizeOf_lt_of_mem_childrenOf (List.mem_of_mem_filter m.2)

/-- The text of a node field of a tree node. -/
def fieldTextFor (c : Catalog) (n : Tree.Node) (f : FieldSpec) : String :=
  if f.name.isEmpty then ""
  else childrenText f.kind (((n.childrenOf f.name).filter (hasTemplate c)).map (treeText c))

theorem unitTextsFor_eq_map (c : Catalog) (n : Tree.Node) (nodeField : FieldSpec → String)
    (us : List FieldUnit) : unitTextsFor c n nodeField us = us.map (unitTextFor c n nodeField) := by
  induction us with
  | nil => rw [unitTextsFor]; rfl
  | cons u us ih => rw [unitTextsFor, ih]; rfl

/-- A choice writes what the alternative that it takes writes. -/
theorem unitTextFor_choice_of_taken {c : Catalog} {n : Tree.Node} {cs : List FieldUnit}
    {u : FieldUnit} (h : cs[alternativeFor c n cs]? = some u) (nodeField : FieldSpec → String)
    (name : Option String) (o : Bool) (i : Nat) :
    unitTextFor c n nodeField (.choice name o cs i) = unitTextFor c n nodeField u := by
  rw [unitTextFor, unitTextsFor_eq_map, List.getElem?_map, h]
  rfl

theorem treeText_of_none {c : Catalog} {n : Tree.Node} (h : c.templateForTag? n.tag = none) :
    treeText c n = "" := by
  rw [treeText]
  simp only [h]

theorem treeText_of_some {c : Catalog} {n : Tree.Node} {t : Template}
    (h : c.templateForTag? n.tag = some t) :
    treeText c n = String.join (t.fields.map (unitTextFor c n (fieldTextFor c n))) := by
  rw [treeText]
  simp only [h, unitTextsFor_eq_map, List.attach_map_val (f := treeText c)]
  rfl

/-! ### The texts of slots -/

theorem ne_empty_of_usableText {t : Tree.Token} {s : String} (h : t.usableText = some s) :
    s ≠ "" := by
  unfold Tree.Token.usableText at h
  split at h
  · simp at h
  · rename_i hcond
    obtain rfl := Option.some.inj h
    exact fun hempty => hcond (by simp [hempty])

/-- A token text that is there is not empty. -/
theorem ne_empty_of_slotText {n : Tree.Node} {name s : String} (h : slotText n name = some s) :
    s ≠ "" := by
  obtain ⟨slot, -, h⟩ := Option.bind_eq_some_iff.1 h
  cases slot with
  | token t => exact ne_empty_of_usableText h
  | node m => simp [Tree.Slot.tokenText] at h
  | nodes ms => simp [Tree.Slot.tokenText] at h
  | tokens ts =>
    simp only [Tree.Slot.tokenText] at h
    split at h
    · simp at h
    · rename_i hne
      obtain rfl := Option.some.inj h
      cases htexts : ts.filterMap Tree.Token.usableText with
      | nil => simp [htexts] at hne
      | cons first rest =>
        have hfirst : first ∈ ts.filterMap Tree.Token.usableText := by simp [htexts]
        obtain ⟨t, -, ht⟩ := List.mem_filterMap.1 hfirst
        have hempty := ne_empty_of_usableText ht
        cases rest with
        | nil => simpa using hempty
        | cons second rest =>
          rw [String.intercalate_cons_cons]
          simp

theorem tokenText_slotText (n : Tree.Node) (name : String) :
    tokenText (slotText n name) = (slotText n name).elim "" (· ++ " ") := by
  cases h : slotText n name with
  | none => rfl
  | some s => exact if_neg (ne_empty_of_slotText h)

theorem tokenListText_slotText (n : Tree.Node) (name : String) :
    tokenListText (slotText n name) = (slotText n name).elim "" (commasToSpaces · ++ " ") := by
  cases h : slotText n name with
  | none => rfl
  | some s => exact if_neg (ne_empty_of_slotText h)

/-! ### The units of a converted node -/

theorem alternativeFor_le (c : Catalog) (n : Tree.Node) (cs : List FieldUnit) :
    alternativeFor c n cs ≤ cs.length - 1 := by
  have hlt : ∀ accept j, cs.findIdx? accept = some j → j < cs.length := by
    intro accept j hj
    exact (List.findIdx?_eq_some_iff_getElem.1 hj).1
  unfold alternativeFor
  cases h₂ : cs.findIdx? (ownsCovered c n) with
  | some j =>
    have := hlt _ j h₂
    simp only [Option.getD_some]
    omega
  | none =>
    cases h₁ : cs.findIdx? (looksLike (.ofNode n)) with
    | some j =>
      have := hlt _ j h₁
      simp only [Option.getD_none, Option.getD_some]
      omega
    | none => simp

/-- The unit after the three passes of a conversion. -/
def converted (n : Tree.Node) (keys names : List String) (u : FieldUnit) : FieldUnit :=
  settleUnit (isRealized keys) (settleUnit (looksLike (.ofNode n))
    (mapUnitTexts (filledText n names) u))

/-- What a conversion has to know of the fields `specs` of a tree node: the fields with children are
those with a child that has a template, the texts of all token fields are filled in, and the children
write what they write for the tree node. -/
structure Agrees (c : Catalog) (n : Tree.Node) (specs : List FieldSpec) (keys names : List String)
    (nodeField nodeField' : FieldSpec → String) : Prop where
  keys : ∀ f ∈ specs, f.kind.isNode = true → keys.contains f.name = hasCoveredChild c n f.name
  names : ∀ f ∈ specs, f.kind.isToken = true → f.name ∈ names
  field : ∀ f ∈ specs, f.kind.isNode = true → nodeField' f = nodeField f

section Units

variable {c : Catalog} {n : Tree.Node} {specs : List FieldSpec} {keys names : List String}
  {nodeField nodeField' : FieldSpec → String}

theorem isRealized_eq_ownsCovered (h : Agrees c n specs keys names nodeField nodeField')
    {u : FieldUnit} (hu : ∀ f ∈ Units.specs [u], f ∈ specs) :
    isRealized keys u = ownsCovered c n u := by
  have hkeys : ∀ f ∈ Units.nodeFields [u], keys.contains f.name = hasCoveredChild c n f.name := by
    intro f hf
    obtain ⟨hf, hkind⟩ := List.mem_filter.1 hf
    exact h.keys f (hu f hf) hkind
  rw [Bool.eq_iff_iff, isRealized, ownsCovered, List.any_eq_true, List.any_eq_true]
  constructor
  · rintro ⟨f, hf, hcontains⟩
    exact ⟨f, hf, hkeys f hf ▸ hcontains⟩
  · rintro ⟨f, hf, hcovered⟩
    exact ⟨f, hf, hkeys f hf ▸ hcovered⟩

/-- The selection of a converted choice is the alternative that it takes for the tree node. -/
theorem converted_choice (h : Agrees c n specs keys names nodeField nodeField')
    {cs : List FieldUnit} (hcs : ∀ f ∈ Units.specs cs, f ∈ specs) (name : Option String) (o : Bool) :
    converted n keys names (.choice name o cs 0) =
      .choice name o (cs.map (converted n keys names)) (alternativeFor c n cs) := by
  have hmem : ∀ u ∈ cs, ∀ f ∈ Units.specs [u], f ∈ specs :=
    fun u hu f hf => hcs f (mem_specs_of_mem hu hf)
  have hsecond : cs.findIdx? (isRealized keys) = cs.findIdx? (ownsCovered c n) :=
    findIdx?_congr fun u hu => isRealized_eq_ownsCovered h (hmem u hu)
  simp only [converted, mapUnitTexts, settleUnit, findIdx?_looksLike_mapTexts,
    findIdx?_isRealized_settleUnits, hsecond]
  simp only [settleUnits_eq_map, mapTexts_eq_map, List.map_map]
  rfl

/-- A single field of a converted node writes the token text of the slot. -/
theorem renderUnit_converted_single (h : Agrees c n specs keys names nodeField nodeField')
    {f : FieldSpec} (hf : f ∈ specs) :
    renderUnit nodeField' (converted n keys names (.single f none)) =
      unitTextFor c n nodeField (.single f none) := by
  have htext : f.kind.isToken = true → filledText n names f none = slotText n f.name := by
    intro hkind
    rw [filledText, if_pos (h.names f hf hkind), Option.or_none]
  simp only [converted, mapUnitTexts, settleUnit]
  rw [renderUnit, unitTextFor]
  cases hkind : f.kind with
  | token =>
    rw [htext (by rw [hkind]; rfl)]
    exact tokenText_slotText n f.name
  | tokenList =>
    rw [htext (by rw [hkind]; rfl)]
    exact tokenListText_slotText n f.name
  | singleNode => exact h.field f hf (by rw [hkind]; rfl)
  | nodeList => exact h.field f hf (by rw [hkind]; rfl)
  | separatedNodeList => exact h.field f hf (by rw [hkind]; rfl)
  | unknown => rfl

/-- **A converted unit writes what the unit of the template writes for the tree node.** -/
theorem renderUnit_converted (h : Agrees c n specs keys names nodeField nodeField') (u : FieldUnit)
    (hbare : u.bare = u) (hu : ∀ f ∈ Units.specs [u], f ∈ specs) :
    renderUnit nodeField' (converted n keys names u) = unitTextFor c n nodeField u := by
  induction u using FieldUnit.induction with
  | single f v =>
    obtain rfl : v = none := by simpa [FieldUnit.bare] using hbare.symm
    exact renderUnit_converted_single h (hu f (by simp [Units.specs, FieldUnit.singles]))
  | choice name o cs i ih =>
    simp only [FieldUnit.bare, FieldUnit.choice.injEq, true_and] at hbare
    obtain ⟨hbare, rfl⟩ := hbare
    rw [specs_choice] at hu
    have hcs : cs.map (renderUnit nodeField' ∘ converted n keys names) =
        cs.map (unitTextFor c n nodeField) :=
      List.map_congr_left fun v hv =>
        ih v hv (Units.bare_of_mem hbare hv) fun f hf => hu f (mem_specs_of_mem hv hf)
    rw [converted_choice h hu, renderUnit, renderUnits_eq_map, List.map_map, List.length_map,
      Nat.min_eq_left (alternativeFor_le c n cs), unitTextFor, unitTextsFor_eq_map, hcs]
  | sequence cs ih =>
    simp only [FieldUnit.bare, FieldUnit.sequence.injEq] at hbare
    rw [specs_sequence] at hu
    have hcs : cs.map (renderUnit nodeField' ∘ converted n keys names) =
        cs.map (unitTextFor c n nodeField) :=
      List.map_congr_left fun v hv =>
        ih v hv (Units.bare_of_mem hbare hv) fun f hf => hu f (mem_specs_of_mem hv hf)
    have hconverted : converted n keys names (.sequence cs) =
        .sequence (cs.map (converted n keys names)) := by
      simp only [converted, mapUnitTexts, settleUnit, settleUnits_eq_map, mapTexts_eq_map,
        List.map_map]
      rfl
    rw [hconverted, renderUnit, renderUnits_eq_map, List.map_map, unitTextFor, unitTextsFor_eq_map,
      hcs]

end Units

/-! ### Conversion and emission together -/

theorem map_eq_map_of_forall₂ {α β γ : Type} {R : α → β → Prop} {f : α → γ} {g : β → γ} {xs : List α}
    {ys : List β} (h : List.Forall₂ R xs ys) (hfg : ∀ x ∈ xs, ∀ y ∈ ys, R x y → g y = f x) :
    ys.map g = xs.map f := by
  induction h with
  | nil => rfl
  | cons hxy _ ih =>
    rw [List.map_cons, List.map_cons, hfg _ List.mem_cons_self _ List.mem_cons_self hxy,
      ih fun x hx y hy => hfg x (List.mem_cons_of_mem _ hx) y (List.mem_cons_of_mem _ hy)]

section Text

variable {c : Catalog}

/-- **A converted tree has the text of the tree.** By induction on the tree. -/
theorem convertedText_of_converts (hbare : c.IsBare) (n : Tree.Node) (node : ConvertedNode)
    (h : Converts c n node) : convertedText node = treeText c n := by
  obtain ⟨counter, h⟩ := h
  cases ht : c.templateForTag? n.tag with
  | none => simp [convertNode_of_none ht] at h
  | some t =>
    have hagrees : Agrees c n (Units.specs t.fields) (node.children.map (·.1))
        (Units.tokenFieldNames t.fields) (fieldTextFor c n) (convertedFieldText node) := by
      refine ⟨fun f hf hkind => ?_, fun f => mem_tokenFieldNames, fun f hf hkind => ?_⟩
      · have hname := mem_nodeFieldNames hf hkind
        rw [keys_of_convertNode ht h, Bool.eq_iff_iff, List.contains_iff_mem, List.mem_filter]
        exact ⟨fun hcovered => hcovered.2, fun hcovered => ⟨hname, hcovered⟩⟩
      · have hchildren := forall₂_childrenOf ht h (mem_nodeFieldNames hf hkind)
        have htexts : (node.childrenOf f.name).map convertedText =
            ((n.childrenOf f.name).filter (hasTemplate c)).map (treeText c) := by
          refine map_eq_map_of_forall₂ hchildren fun m hm child _ hchild => ?_
          have hlt := Tree.Node.sizeOf_lt_of_mem_childrenOf (List.mem_of_mem_filter hm)
          exact convertedText_of_converts hbare m child hchild
        rw [convertedFieldText, fieldTextFor, htexts]
    rw [convertedText_eq, fields_of_convertNode ht h, treeText_of_some ht, settleUnits_eq_map,
      settleUnits_eq_map, mapTexts_eq_map, List.map_map, List.map_map, List.map_map]
    refine congrArg String.join (List.map_congr_left fun u hu => ?_)
    exact renderUnit_converted hagrees u (Units.bare_of_mem (hbare _ t ht) hu)
      fun f hf => mem_specs_of_mem hu hf
termination_by sizeOf n

/-- The graph of a converted tree emits the text of the tree, as long as there are ids for all
instances. -/
theorem emit_convert (hbare : c.IsBare) (root : Tree.Node) (counter : Counter)
    (hids : coverage c root ≤ UInt64.size) :
    (Graph.ofRoot (convert c root counter).1.root).emit = treeText c root := by
  rw [convert_eq]
  cases h : (convertNode c root counter).1 with
  | none =>
    cases ht : c.templateForTag? root.tag with
    | none => rw [treeText_of_none ht]; exact Emission.emit_empty
    | some t => simp [convertNode_of_some ht] at h
  | some node =>
    refine (Emission.emit_ofConverted (simple_of_convertNode hids h)).trans ?_
    exact convertedText_of_converts hbare root node ⟨counter, h⟩

/-- **The text of a graph is the text of its tree.** For a catalog that is read from a schema, the
graph of a converted tree gives the text that the tree and its templates come to, wherever the
counter of ids starts; this is nothing when the root has no template. The counter may even wrap: the
ids only have to be distinct, which they are while there are at most as many instances as ids. -/
theorem toCode_convert {source : String} (hc : Catalog.parse source = .ok c) (root : Tree.Node)
    (counter : Counter) (hids : coverage c root ≤ UInt64.size) {s : Synchronizer}
    (hs : s.formatter = none) :
    s.toCode (Graph.ofRoot (convert c root counter).1.root) = .ok (treeText c root) ∧
      (c.templateForTag? root.tag = none →
        s.toCode (Graph.ofRoot (convert c root counter).1.root) = .ok "") := by
  have htext : s.toCode (Graph.ofRoot (convert c root counter).1.root) = .ok (treeText c root) := by
    rw [Synchronizer.toCode, hs]
    exact congrArg _ (emit_convert (Catalog.isBare_of_parse hc) root counter hids)
  refine ⟨htext, fun ht => ?_⟩
  rw [htext, treeText_of_none ht]

end Text

/-! ### A schema with lists -/

/-- A schema with one kind of node, which has a list of tokens, and one of two signs or two lists of
nodes. -/
def blockSource : String :=
  "<Tree><Node Name='Block'><Kind Name='block'/>
    <Field Name='Words' Type='SyntaxList&lt;SyntaxToken&gt;'/>
    <Choice><Field Name='Plus' Type='SyntaxToken'><Kind Name='plus'/></Field>
    <Field Name='Minus' Type='SyntaxToken'><Kind Name='minus'/></Field>
    <Sequence><Field Name='Items' Type='SeparatedSyntaxList'/><Field Name='Rest' Type='SyntaxList'/>
    </Sequence></Choice><Field Name='' Type='SyntaxList'/></Node></Tree>"

/-- The alternatives of its choice. -/
def blockBodies : List FieldUnit :=
  [.ofSpec { name := "Plus", declaredType := "SyntaxToken", kinds := ["plus"] },
    .ofSpec { name := "Minus", declaredType := "SyntaxToken", kinds := ["minus"] },
    .sequence [.ofSpec (fieldOf "Items" "SeparatedSyntaxList"),
      .ofSpec (fieldOf "Rest" "SyntaxList")]]

/-- The one kind of node. -/
def blockTemplate : Template where
  name := "Block"
  kinds := ["block"]
  fields := [.ofSpec (fieldOf "Words" "SyntaxList<SyntaxToken>"), .choice none false blockBodies 0,
    .ofSpec (fieldOf "" "SyntaxList")]

set_option maxRecDepth 4000 in
theorem parse_blockSource :
    Catalog.parse blockSource = .ok (.ofDocument { nodes := [blockTemplate] }) := by
  -- a literal is given by its characters, so they need not be decoded from its bytes
  have hchars : blockSource.toList = _ := String.toList_ofList
  refine Catalog.parse_eq_ok ?_
  rw [Document.parse, Xml.read?, hchars]
  decide +kernel

/-- A node with the second sign. -/
def blockLeaf (text : String) : Tree.Node :=
  .mk "block" [("Minus", .token { tag := "minus", text })]

/-- A node with words, of which one is empty and one was put in by error recovery, with the first
sign and with nodes. -/
def blockTree : Tree.Node :=
  .mk "block" [("Words", .tokens [{ tag := "word", text := "a,b" }, { tag := "word" },
      { tag := "word", text := "d", missing := true }, { tag := "word", text := "c" }]),
    ("Plus", .token { tag := "plus", text := "+" }),
    ("Items", .nodes [blockLeaf "x", .mk "other" [], blockLeaf "y"]),
    ("Rest", .node (blockLeaf "z")), ("", .node (blockLeaf "w"))]

section Block

variable {c : Catalog}

theorem coverage_le_of_visits {n : Tree.Node} (h : (visits c n).length ≤ UInt64.size) :
    coverage c n ≤ UInt64.size :=
  Nat.le_trans List.countP_le_length h

theorem treeText_block (hn : c.templateForTag? "block" = some blockTemplate) {n : Tree.Node}
    (htag : n.tag = "block") {u : FieldUnit}
    (hbody : blockBodies[alternativeFor c n blockBodies]? = some u) :
    treeText c n = (slotText n "Words").elim "" (commasToSpaces · ++ " ") ++
      unitTextFor c n (fieldTextFor c n) u := by
  rw [treeText_of_some (htag ▸ hn), blockTemplate]
  simp only [List.map_cons, List.map_nil, unitTextFor_choice_of_taken hbody]
  simp [unitTextFor, FieldUnit.ofSpec, fieldOf, FieldSpec.kind, classify_written, fieldTextFor]

/-- The tag of the sign speaks for the second alternative. -/
theorem treeText_blockLeaf (hn : c.templateForTag? "block" = some blockTemplate) {text : String}
    (htext : text ≠ "") : treeText c (blockLeaf text) = text ++ " " := by
  have hbody : blockBodies[alternativeFor c (blockLeaf text) blockBodies]? = some blockBodies[1] :=
    rfl
  have hwords : slotText (blockLeaf text) "Words" = none := rfl
  have hsign : slotText (blockLeaf text) "Minus" = some text := by
    simp [slotText, blockLeaf, Tree.Node.field?, Tree.Node.fields, Tree.Slot.tokenText,
      Tree.Token.usableText, htext]
  rw [treeText_block hn rfl hbody, hwords]
  simp [blockBodies, unitTextFor, FieldUnit.ofSpec, FieldSpec.kind, classify_written, hsign]

theorem childrenOf_blockTree :
    blockTree.childrenOf "Items" = [blockLeaf "x", .mk "other" [], blockLeaf "y"] ∧
      blockTree.childrenOf "Rest" = [blockLeaf "z"] ∧ blockTree.childrenOf "" = [blockLeaf "w"] :=
  ⟨rfl, rfl, rfl⟩

/-- The nodes outweigh the tag of the sign. -/
theorem alternativeFor_blockTree (hleaf : ∀ text, hasTemplate c (blockLeaf text) = true) :
    alternativeFor c blockTree blockBodies = 2 := by
  have hfields : Units.nodeFields [blockBodies[2]] =
      [fieldOf "Items" "SeparatedSyntaxList", fieldOf "Rest" "SyntaxList"] := by decide
  have hplus : ownsCovered c blockTree blockBodies[0] = false := rfl
  have hminus : ownsCovered c blockTree blockBodies[1] = false := rfl
  have hnodes : ownsCovered c blockTree blockBodies[2] = true := by
    simp [ownsCovered, hfields, hasCoveredChild, fieldOf, childrenOf_blockTree, hleaf]
  have hfind : blockBodies.findIdx? (ownsCovered c blockTree) = some 2 := by
    have hbodies : blockBodies = [blockBodies[0], blockBodies[1], blockBodies[2]] := rfl
    rw [hbodies]
    simp only [List.findIdx?_cons, hplus, hminus, hnodes]
    rfl
  rw [alternativeFor, hfind]
  rfl

theorem treeText_blockTree (hn : c.templateForTag? "block" = some blockTemplate)
    (hm : c.templateForTag? "other" = none) : treeText c blockTree = "a b c x , y z " := by
  have hleaf : ∀ text, hasTemplate c (blockLeaf text) = true := by
    intro text
    simp [hasTemplate, blockLeaf, Tree.Node.tag, hn]
  have hskip : hasTemplate c (.mk "other" []) = false := by simp [hasTemplate, Tree.Node.tag, hm]
  have hbody : blockBodies[alternativeFor c blockTree blockBodies]? = some blockBodies[2] := by
    rw [alternativeFor_blockTree hleaf]
    rfl
  have hwords : slotText blockTree "Words" = some "a,b c" := by decide
  have hcommas : commasToSpaces "a,b c" = "a b c" := by decide
  rw [treeText_block hn rfl hbody, hwords]
  simp [blockBodies, unitTextFor, unitTextsFor, FieldUnit.ofSpec, fieldOf, FieldSpec.kind,
    classify_written, hcommas, fieldTextFor, childrenOf_blockTree, hleaf, hskip,
    treeText_blockLeaf hn, childrenText]

theorem length_visits_blockTree (hn : c.templateForTag? "block" = some blockTemplate)
    (hm : c.templateForTag? "other" = none) : (visits c blockTree).length = 6 := by
  have hnames : Units.nodeFieldNames blockTemplate.fields = ["Items", "Rest", ""] := by decide
  have hleaf : ∀ text, visits c (blockLeaf text) = [blockLeaf text] := by
    intro text
    rw [visits_of_some hn, hnames]
    rfl
  have hskip : visits c (.mk "other" []) = [.mk "other" []] := visits_of_none hm
  rw [visits_of_some hn, hnames]
  simp [visitsBelow, childrenOf_blockTree, hleaf, hskip]

end Block

theorem toCode_blockTree :
    ∃ c, Catalog.parse blockSource = .ok c ∧
      ({ catalog := .ofCatalog c } : Synchronizer).toCode
          (Graph.ofRoot (convert c blockTree ⟨7⟩).1.root) = .ok "a b c x , y z " ∧
      ({ catalog := .ofCatalog c } : Synchronizer).toCode
          (Graph.ofRoot (convert c (.mk "other" []) ⟨7⟩).1.root) = .ok "" := by
  obtain ⟨c, hc, hn, hm⟩ : ∃ c, Catalog.parse blockSource = .ok c ∧
      c.templateForTag? "block" = some blockTemplate ∧ c.templateForTag? "other" = none := by
    refine ⟨_, parse_blockSource, ?_, ?_⟩ <;> rw [Catalog.templateForTag?_ofDocument] <;> rfl
  have hids : coverage c blockTree ≤ UInt64.size :=
    coverage_le_of_visits (by rw [length_visits_blockTree hn hm]; decide)
  have hids' : coverage c (.mk "other" []) ≤ UInt64.size :=
    coverage_le_of_visits (by rw [visits_of_none hm]; decide)
  refine ⟨c, hc, ?_, (toCode_convert hc _ ⟨7⟩ hids' rfl).2 hm⟩
  rw [← treeText_blockTree hn hm]
  exact (toCode_convert hc _ ⟨7⟩ hids rfl).1

/-! ### A schema with a single choice -/

/-- A schema with one kind of node, which has one token or any number of nodes. -/
def nestedSource : String :=
  "<Tree><Node Name='N'><Kind Name='n'/><Choice><Field Name='A' Type='SyntaxToken'/>
    <Field Name='B' Type='SeparatedSyntaxList'/></Choice></Node></Tree>"

/-- The field for a token. -/
def nestedToken : FieldSpec where
  name := "A"
  declaredType := "SyntaxToken"

/-- The field for nodes. -/
def nestedNodes : FieldSpec where
  name := "B"
  declaredType := "SeparatedSyntaxList"

/-- The one kind of node. -/
def nestedTemplate : Template where
  name := "N"
  kinds := ["n"]
  fields := [.choice none false [.ofSpec nestedToken, .ofSpec nestedNodes] 0]

theorem parse_nestedSource :
    Catalog.parse nestedSource = .ok (.ofDocument { nodes := [nestedTemplate] }) :=
  Catalog.parse_eq_ok (by decide +kernel)

/-- A node with a token. -/
def nestedLeaf (text : String) : Tree.Node :=
  .mk "n" [("A", .token { tag := "word", text })]

/-- A node with nodes. -/
def nestedBranch (ms : List Tree.Node) : Tree.Node :=
  .mk "n" [("B", .nodes ms)]

section Nested

variable {c : Catalog}

theorem visits_nestedLeaf (hn : c.templateForTag? "n" = some nestedTemplate) (text : String) :
    visits c (nestedLeaf text) = [nestedLeaf text] := by
  have hnames : Units.nodeFieldNames nestedTemplate.fields = ["B"] := by decide
  rw [visits_of_some hn, hnames]
  rfl

theorem visits_nestedBranch (hn : c.templateForTag? "n" = some nestedTemplate)
    (ms : List Tree.Node) :
    visits c (nestedBranch ms) = nestedBranch ms :: ms.flatMap (visits c) := by
  have hnames : Units.nodeFieldNames nestedTemplate.fields = ["B"] := by decide
  rw [visits_of_some hn, hnames, List.flatMap_singleton]
  rfl

theorem alternativeFor_nestedBranch {ms : List Tree.Node} (h : ms.any (hasTemplate c) = true) :
    alternativeFor c (nestedBranch ms) [.ofSpec nestedToken, .ofSpec nestedNodes] = 1 := by
  have hfields : Units.nodeFields [.ofSpec nestedNodes] = [nestedNodes] := by decide
  have htoken : ownsCovered c (nestedBranch ms) (.ofSpec nestedToken) = false := rfl
  have hnodes : ownsCovered c (nestedBranch ms) (.ofSpec nestedNodes) = true := by
    rw [ownsCovered, hfields, List.any_cons, List.any_nil, Bool.or_false]
    exact h
  simp [alternativeFor, List.findIdx?_cons, htoken, hnodes]

end Nested

end SyntaxGraph.Conversion
