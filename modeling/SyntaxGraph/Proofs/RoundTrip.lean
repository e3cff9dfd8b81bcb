import SyntaxGraph.Proofs.Conformity
import SyntaxGraph.Proofs.TreeText

/-!
# Round trips

The text of a conforming tree, split into tokens, gives the tokens of the fields that its choices
take. Where at every node these are the fields that have the tokens, the text gives the tokens of the
tree, none lost, none added and all in order. A tree can conform by an alternative that conversion
does not take; what the taken alternatives leave out is then missing from the text.
-/

namespace SyntaxGraph.Conversion

open Schema (Catalog)
open Emission (childrenText commasToSpaces)
open Text (Spells)

/-! ### The fields that are written -/

mutual

/-- The fields that a unit comes to for a tree node: those of a choice are those of the alternative
that it takes. -/
def takenFields (c : Catalog) (n : Tree.Node) : FieldUnit → List FieldSpec
  | .single f _ => [f]
  | .choice _ _ cs _ => ((takenFieldsOfEach c n cs)[alternativeFor c n cs]?).getD []
  | .sequence cs => (takenFieldsOfEach c n cs).flatten

/-- The fields that each of the units comes to. -/
def takenFieldsOfEach (c : Catalog) (n : Tree.Node) : List FieldUnit → List (List FieldSpec)
  | [] => []
  | u :: us => takenFields c n u :: takenFieldsOfEach c n us

end

theorem takenFieldsOfEach_eq_map (c : Catalog) (n : Tree.Node) (us : List FieldUnit) :
    takenFieldsOfEach c n us = us.map (takenFields c n) := by
  induction us with
  | nil => rw [takenFieldsOfEach]; rfl
  | cons u us ih => rw [takenFieldsOfEach, ih]; rfl

/-- The alternatives that are taken are a selection. -/
theorem takenFields_mem_selections (c : Catalog) (n : Tree.Node) (u : FieldUnit) :
    takenFields c n u ∈ u.selections := by
  induction u using FieldUnit.induction with
  | single f v => simp [takenFields, FieldUnit.selections]
  | choice name o cs i ih =>
    rw [takenFields, FieldUnit.selections, takenFieldsOfEach_eq_map, List.getElem?_map]
    have hle := alternativeFor_le c n cs
    cases hu : cs[alternativeFor c n cs]? with
    | none =>
      have hlength := List.getElem?_eq_none_iff.1 hu
      have hempty : cs = [] := List.eq_nil_of_length_eq_zero (by omega)
      simp [hempty]
    | some u =>
      have hmem := List.mem_of_getElem? hu
      rw [if_neg (by simp [List.ne_nil_of_mem hmem])]
      exact Units.mem_alternatives hmem (ih u hmem)
  | sequence cs ih =>
    rw [takenFields, FieldUnit.selections, takenFieldsOfEach_eq_map, ← List.flatMap_def]
    exact Units.flatMap_mem_selections ih

/-- The texts of the tokens that stand in the slot of a name. -/
def slotTokens (n : Tree.Node) (name : String) : List String :=
  (n.field? name).elim [] fun slot => slot.childTokens.map (·.text)

/-- The tokens that a conversion takes from a tree: at each node those of the fields that the choices
come to. -/
def takenTexts (c : Catalog) (n : Tree.Node) : List String :=
  match c.templateForTag? n.tag with
  | none => []
  | some t => (t.fields.flatMap (takenFields c n)).flatMap fun f =>
    if f.kind.isNode then ((n.childrenOf f.name).attach.map fun m => takenTexts c m.1).flatten
    else if f.kind.isToken then slotTokens n f.name
    else []
termination_by sizeOf n
decreasing_by exact Tree.Node.sizeOf_lt_of_mem_childrenOf m.2

/-- The tokens that a conversion takes from a field of a node. -/
def takenTextsOf (c : Catalog) (n : Tree.Node) (f : FieldSpec) : List String :=
  if f.kind.isNode then (n.childrenOf f.name).flatMap (takenTexts c)
  else if f.kind.isToken then slotTokens n f.name
  else []

theorem takenTexts_of_some {c : Catalog} {n : Tree.Node} {t : Template}
    (h : c.templateForTag? n.tag = some t) :
    takenTexts c n = (t.fields.flatMap (takenFields c n)).flatMap (takenTextsOf c n) := by
  rw [takenTexts]
  simp only [h, List.attach_map_val (f := takenTexts c), ← List.flatMap_def]
  rfl

/-! ### What the units of a node spell -/

/-- A unit spells what the fields that it comes to spell. -/
theorem spells_unitTextFor {c : Catalog} {n : Tree.Node} {nodeField : FieldSpec → String}
    {texts : FieldSpec → List String}
    (h : ∀ f, Spells (unitTextFor c n nodeField (.single f none)) (texts f)) (u : FieldUnit) :
    Spells (unitTextFor c n nodeField u) ((takenFields c n u).flatMap texts) := by
  induction u using FieldUnit.induction with
  | single f v =>
    have hf := h f
    rw [unitTextFor] at hf ⊢
    rw [takenFields, List.flatMap_singleton]
    exact hf
  | choice name o cs i ih =>
    rw [unitTextFor, takenFields, unitTextsFor_eq_map, takenFieldsOfEach_eq_map,
      List.getElem?_map, List.getElem?_map]
    cases hu : cs[alternativeFor c n cs]? with
    | none => exact Text.spells_empty
    | some u => exact ih u (List.mem_of_getElem? hu)
  | sequence cs ih =>
    rw [unitTextFor, takenFields, unitTextsFor_eq_map, takenFieldsOfEach_eq_map,
      ← List.flatMap_def, List.flatMap_assoc]
    exact Text.spells_join ih

/-! ### What the fields of a conforming node spell -/

theorem commasToSpaces_eq_self {s : String} (h : ∀ ch ∈ s.toList, ch ≠ ',') :
    commasToSpaces s = s := by
  have hmap : s.toList.map (fun ch => if ch = ',' then ' ' else ch) = s.toList.map id :=
    List.map_congr_left fun ch hch => if_neg (h ch hch)
  rw [commasToSpaces, hmap, List.map_id, String.ofList_toList]

theorem ne_comma_of_mem_intercalate {ts : List String} (h : ∀ t ∈ ts, Text.IsToken t) :
    ∀ ch ∈ (" ".intercalate ts).toList, ch ≠ ',' := by
  induction ts with
  | nil => simp
  | cons t ts ih =>
    have ht : ∀ ch ∈ t.toList, ch ≠ ',' := fun ch hch => ((h t List.mem_cons_self).chars ch hch).2
    have ih := ih fun u hu => h u (List.mem_cons_of_mem _ hu)
    cases ts with
    | nil => simpa using ht
    | cons u us =>
      intro ch hch
      rw [String.intercalate_cons_cons, String.toList_append, String.toList_append] at hch
      rcases List.mem_append.1 hch with hch | hch
      · rcases List.mem_append.1 hch with hch | hch
        · exact ht ch hch
        · rintro rfl
          simp at hch
      · exact ih ch hch

section Fields

variable {c : Catalog} {n : Tree.Node}

theorem isToken_of_mem_slotTokens (h : ConformsAt c n) (name : String) :
    ∀ t ∈ slotTokens n name, Text.IsToken t := by
  intro t ht
  unfold slotTokens at ht
  cases hslot : n.field? name with
  | none => simp [hslot] at ht
  | some slot =>
    rw [hslot] at ht
    obtain ⟨token, htoken, rfl⟩ := List.mem_map.1 ht
    exact (h.isToken hslot htoken).2

/-- No token of a conforming node is left out of the text of its slot. -/
theorem slotText_of_conformsAt (h : ConformsAt c n) (name : String) :
    slotText n name = if (slotTokens n name).isEmpty then none
      else some (" ".intercalate (slotTokens n name)) := by
  have husable : ∀ slot, n.field? name = some slot → ∀ t ∈ slot.childTokens,
      t.usableText = some t.text := by
    intro slot hslot t ht
    obtain ⟨hmissing, htoken⟩ := h.isToken hslot ht
    simp [Tree.Token.usableText, hmissing, htoken.nonempty]
  rw [slotText, slotTokens]
  cases hslot : n.field? name with
  | none => rfl
  | some slot =>
    have husable := husable slot hslot
    cases slot with
    | token t => simpa [Tree.Slot.tokenText, Tree.Slot.childTokens] using husable
    | tokens ts =>
      have htexts : ts.filterMap Tree.Token.usableText = ts.map (·.text) :=
        (List.filterMap_congr husable).trans (by simp [Tree.Slot.childTokens])
      simp only [Option.bind_some, Tree.Slot.tokenText, htexts]
      rfl
    | node m => rfl
    | nodes ms => rfl

/-- A token field spells the tokens in its slot, whether commas are spaced or not. -/
theorem spells_slotText (h : ConformsAt c n) (name : String) :
    Spells ((slotText n name).elim "" (· ++ " ")) (slotTokens n name) ∧
      Spells ((slotText n name).elim "" (commasToSpaces · ++ " ")) (slotTokens n name) := by
  have htokens := isToken_of_mem_slotTokens h name
  rw [slotText_of_conformsAt h]
  cases hslot : slotTokens n name with
  | nil => exact ⟨Text.spells_empty, Text.spells_empty⟩
  | cons t ts =>
    rw [hslot] at htokens
    have hspells := Text.spells_spaced (by simp) htokens
    refine ⟨hspells, ?_⟩
    simpa [commasToSpaces_eq_self (ne_comma_of_mem_intercalate htokens)] using hspells

theorem spells_childrenText (kind : FieldKind) {α : Type} {f : α → String} {g : α → List String}
    {xs : List α} (h : ∀ x ∈ xs, Spells (f x) (g x)) :
    Spells (childrenText kind (xs.map f)) (xs.flatMap g) := by
  unfold childrenText
  split
  · exact Text.spells_intercalate Text.spells_comma h
  · exact Text.spells_join h

/-- A node field spells what its nodes spell. -/
theorem spells_fieldTextFor (h : ConformsAt c n) (f : FieldSpec)
    (hchildren : ∀ m ∈ n.childrenOf f.name,
      hasTemplate c m = true ∧ Spells (treeText c m) (takenTexts c m)) :
    Spells (fieldTextFor c n f) ((n.childrenOf f.name).flatMap (takenTexts c)) := by
  unfold fieldTextFor
  split
  · rename_i hname
    have hnone : n.childrenOf f.name = [] := by
      rw [Tree.Node.childrenOf, String.isEmpty_iff.1 hname, h.field?_empty]
    rw [hnone]
    exact Text.spells_empty
  · have hall : (n.childrenOf f.name).filter (hasTemplate c) = n.childrenOf f.name :=
      List.filter_eq_self.2 fun m hm => (hchildren m hm).1
    rw [hall]
    exact spells_childrenText f.kind fun m hm => (hchildren m hm).2

end Fields

section RoundTrip

variable {c : Catalog}

theorem hasTemplate_of_conformsAt {n : Tree.Node} (h : ConformsAt c n) :
    hasTemplate c n = true := by
  obtain ⟨t, ht, -⟩ := h
  simp [hasTemplate, ht]

/-- **The text of a conforming tree spells the tokens that its choices take.** By induction on the
tree. -/
theorem spells_treeText (n : Tree.Node) (h : Conforms c n) :
    Spells (treeText c n) (takenTexts c n) := by
  have hn : ConformsAt c n := h.here
  obtain ⟨t, ht, -⟩ := h.here
  have hchildren : ∀ name, ∀ m ∈ n.childrenOf name,
      hasTemplate c m = true ∧ Spells (treeText c m) (takenTexts c m) := by
    intro name m hm
    have hlt := Tree.Node.sizeOf_lt_of_mem_childrenOf hm
    exact ⟨hasTemplate_of_conformsAt (h.child hm).here, spells_treeText m (h.child hm)⟩
  have hfield : ∀ f, Spells (unitTextFor c n (fieldTextFor c n) (.single f none))
      (takenTextsOf c n f) := by
    intro f
    have htoken := spells_slotText hn f.name
    have hnode := spells_fieldTextFor hn f (hchildren f.name)
    unfold takenTextsOf
    rw [unitTextFor]
    cases f.kind with
    | token => exact htoken.1
    | tokenList => exact htoken.2
    | singleNode => exact hnode
    | nodeList => exact hnode
    | separatedNodeList => exact hnode
    | unknown => exact Text.spells_empty
  rw [treeText_of_some ht, takenTexts_of_some ht, List.flatMap_assoc]
  exact Text.spells_join fun u _ => spells_unitTextFor hfield u
termination_by sizeOf n

end RoundTrip

/-! ### Nodes whose tokens are all taken -/

/-- The slot of a name has tokens in it. -/
def hasTokens (n : Tree.Node) (name : String) : Bool :=
  (n.field? name).any (!·.texts.isEmpty)

/-- The field is one for tokens if there are tokens in the slot, and one for nodes if there are
nodes. -/
def Carries (f : FieldSpec) (slot : Tree.Slot) : Prop :=
  (slot.childTokens ≠ [] → f.kind.isToken = true) ∧ (slot.childNodes ≠ [] → f.kind.isNode = true)

/-- The choices keep the tokens of the node: of the fields that they come to, those that have tokens
in the node are, in order, the slots of the node that have tokens. -/
def KeepsAt (c : Catalog) (n : Tree.Node) : Prop :=
  ∀ t, c.templateForTag? n.tag = some t →
    List.Forall₂ (fun f s => f.name = s.1 ∧ Carries f s.2)
      ((t.fields.flatMap (takenFields c n)).filter fun f => hasTokens n f.name)
      (n.fields.filter fun s => !s.2.texts.isEmpty)

section Kept

variable {c : Catalog} {n : Tree.Node}

/-- What is taken from a field, if everything is taken from the nodes in its slot. -/
theorem takenTextsOf_eq {f : FieldSpec} {slot : Tree.Slot} (hslot : n.field? f.name = some slot)
    (hchildren : ∀ m ∈ n.childrenOf f.name, takenTexts c m = m.texts) :
    takenTextsOf c n f = if f.kind.isNode then slot.childNodes.flatMap Tree.Node.texts
      else if f.kind.isToken then slot.childTokens.map (·.text) else [] := by
  have hnodes : n.childrenOf f.name = slot.childNodes := by rw [Tree.Node.childrenOf, hslot]
  rw [hnodes] at hchildren
  rw [takenTextsOf, slotTokens, hnodes, hslot, List.flatMap_congr hchildren]
  rfl

theorem takenTextsOf_of_carries {f : FieldSpec} {slot : Tree.Slot}
    (hslot : n.field? f.name = some slot) (hcarries : Carries f slot)
    (hchildren : ∀ m ∈ n.childrenOf f.name, takenTexts c m = m.texts) :
    takenTextsOf c n f = slot.texts := by
  obtain ⟨htoken, hnode⟩ := hcarries
  rw [takenTextsOf_eq hslot hchildren, Tree.Slot.texts_eq]
  by_cases hisNode : f.kind.isNode = true
  · have hempty : slot.childTokens = [] := by
      by_contra hne
      simp [FieldKind.isToken_eq_false_of_isNode hisNode] at htoken
      exact hne htoken
    simp [hisNode, hempty]
  · have hempty : slot.childNodes = [] := by
      by_contra hne
      exact hisNode (hnode hne)
    by_cases hisToken : f.kind.isToken = true
    · simp [hisNode, hisToken, hempty]
    · have hempty' : slot.childTokens = [] := by
        by_contra hne
        exact hisToken (htoken hne)
      simp [hisNode, hisToken, hempty, hempty']

theorem takenTextsOf_of_hasTokens_eq_false {f : FieldSpec} (hf : hasTokens n f.name = false)
    (hchildren : ∀ m ∈ n.childrenOf f.name, takenTexts c m = m.texts) :
    takenTextsOf c n f = [] := by
  cases hslot : n.field? f.name with
  | none => simp [takenTextsOf, slotTokens, Tree.Node.childrenOf, hslot]
  | some slot =>
    have hempty : slot.texts = [] := by simpa [hasTokens, hslot] using hf
    rw [Tree.Slot.texts_eq, List.append_eq_nil_iff] at hempty
    rw [takenTextsOf_eq hslot hchildren, hempty.1, hempty.2]
    simp

/-- **Where the choices keep all tokens, all tokens are taken.** By induction on the tree. -/
theorem takenTexts_eq_texts (n : Tree.Node) (h : Conforms c n) (hkeeps : n.Everywhere (KeepsAt c)) :
    takenTexts c n = n.texts := by
  obtain ⟨t, ht, -⟩ := h.here
  have hchildren : ∀ name, ∀ m ∈ n.childrenOf name, takenTexts c m = m.texts := by
    intro name m hm
    have hlt := Tree.Node.sizeOf_lt_of_mem_childrenOf hm
    exact takenTexts_eq_texts m (h.child hm) (hkeeps.child hm)
  have hkept := map_eq_map_of_forall₂ (f := takenTextsOf c n) (g := fun s => s.2.texts)
    (hkeeps.here t ht) fun f _ s hs hfs => by
      have hslot : n.field? f.name = some s.2 :=
        hfs.1 ▸ h.here.field?_eq_some (List.mem_of_mem_filter hs)
      exact (takenTextsOf_of_carries hslot hfs.2 (hchildren f.name)).symm
  calc takenTexts c n
      = (t.fields.flatMap (takenFields c n)).flatMap (takenTextsOf c n) := takenTexts_of_some ht
    _ = ((t.fields.flatMap (takenFields c n)).filter fun f => hasTokens n f.name).flatMap
          (takenTextsOf c n) := (flatMap_filter_eq fun f _ hf =>
            takenTextsOf_of_hasTokens_eq_false hf (hchildren f.name)).symm
    _ = (n.fields.filter fun s => !s.2.texts.isEmpty).flatMap fun s => s.2.texts :=
          (congrArg List.flatten hkept).symm
    _ = n.fields.flatMap fun s => s.2.texts := flatMap_filter_eq fun s _ hs => by simpa using hs
    _ = n.texts := n.texts_eq.symm
termination_by sizeOf n

theorem Carries.of_isOf {f : FieldSpec} {slot : Tree.Slot} (h : slot.isOf f.kind = true) :
    Carries f slot := by
  unfold Carries
  cases slot <;> cases hkind : f.kind <;>
    simp_all [Tree.Slot.isOf, Tree.Slot.childTokens, Tree.Slot.childNodes, FieldKind.isToken,
      FieldKind.isNode]

/-- Fields that the slots fit have tokens where the slots do. By induction on the fit; `look` reads
the slots of a node that may have more of them. -/
theorem forall₂_of_fits {fs : List FieldSpec} {slots : List (String × Tree.Slot)}
    (h : Fits fs slots) (hnames : (fs.map (·.name)).Nodup) {look : String → Option Tree.Slot}
    (hsome : ∀ s ∈ slots, look s.1 = some s.2)
    (hnone : ∀ f ∈ fs, f.name ∉ slots.map (·.1) → look f.name = none) :
    List.Forall₂ (fun f s => f.name = s.1 ∧ Carries f s.2)
      (fs.filter fun f => (look f.name).any (!·.texts.isEmpty))
      (slots.filter fun s => !s.2.texts.isEmpty) := by
  induction h with
  | nil => exact .nil
  | @absent f fs slots _ rest ih =>
    rw [List.map_cons, List.nodup_cons] at hnames
    have hf : look f.name = none :=
      hnone f List.mem_cons_self fun hmem => hnames.1 (rest.sublist_names.subset hmem)
    rw [List.filter_cons_of_neg (by simp [hf])]
    exact ih hnames.2 hsome fun g hg => hnone g (List.mem_cons_of_mem _ hg)
  | @present f fs slot slots accepts rest ih =>
    rw [List.map_cons, List.nodup_cons] at hnames
    have hf : look f.name = some slot := hsome (f.name, slot) List.mem_cons_self
    have ih := ih hnames.2 (fun s hs => hsome s (List.mem_cons_of_mem _ hs)) fun g hg hmem => by
      refine hnone g (List.mem_cons_of_mem _ hg) ?_
      rw [List.map_cons, List.mem_cons, not_or]
      exact ⟨fun hname : g.name = f.name => hnames.1 (hname ▸ List.mem_map_of_mem hg), hmem⟩
    cases htexts : slot.texts.isEmpty with
    | true => simpa [hf, htexts] using ih
    | false =>
      rw [List.filter_cons_of_pos (by simp [hf, htexts]), List.filter_cons_of_pos (by simp [htexts])]
      exact .cons ⟨rfl, .of_isOf accepts.kind⟩ ih

/-- A node that fits the fields which the taken alternatives leave conforms, and the choices keep its
tokens. -/
theorem conformsAt_keepsAt_of_fits {t : Template} (ht : c.templateForTag? n.tag = some t)
    {fs : List FieldSpec} (htaken : t.fields.flatMap (takenFields c n) = fs)
    (hnames : (fs.map (·.name)).Nodup) (hne : ∀ f ∈ fs, f.name ≠ "") (h : Fits fs n.fields) :
    ConformsAt c n ∧ KeepsAt c n := by
  subst htaken
  have hmem := Units.flatMap_mem_selections fun u (_ : u ∈ t.fields) =>
    takenFields_mem_selections c n u
  refine ⟨⟨t, ht, _, hmem, hnames, hne, h⟩, ?_⟩
  intro t' ht'
  obtain rfl : t = t' := Option.some.inj (ht.symm.trans ht')
  refine forall₂_of_fits h hnames ?_ ?_
  · intro s hs
    exact Table.lookup_of_mem (hnames.sublist h.sublist_names) hs
  · intro f _ hmem
    exact Table.lookup_of_notMem hmem

end Kept

/-! ### The round trip -/

/-- **A round trip gives the tokens back.** The text of the graph of a conforming tree, split at
blanks and without the lone commas, is what the choices take of the tokens of the tree; it is all of
them, in the order of the fields, when the choices keep the tokens at every node. -/
theorem tokens_toCode_convert {source : String} {c : Catalog} (hc : Catalog.parse source = .ok c)
    {root : Tree.Node} (h : Conforms c root) (counter : Counter)
    (hids : coverage c root ≤ UInt64.size) {s : Synchronizer} (hs : s.formatter = none) :
    ∃ text, s.toCode (Graph.ofRoot (convert c root counter).1.root) = .ok text ∧
      Text.tokens text.toList = takenTexts c root ∧
      (root.Everywhere (KeepsAt c) → Text.tokens text.toList = root.texts) := by
  have htokens : Text.tokens (treeText c root).toList = takenTexts c root :=
    (spells_treeText root h).tokens_eq
  refine ⟨treeText c root, ?_, htokens, fun hkeeps => ?_⟩
  · rw [Synchronizer.toCode, hs]
    exact congrArg _ (emit_convert (Catalog.isBare_of_parse hc) root counter hids)
  · rw [htokens, takenTexts_eq_texts root h hkeeps]

theorem tokens_toCode_nestedBranch :
    ∃ c, Catalog.parse nestedSource = .ok c ∧
      Conforms c (nestedBranch [nestedLeaf "x", nestedLeaf "y"]) ∧
      ∃ text, ({ catalog := .ofCatalog c } : Synchronizer).toCode (Graph.ofRoot
          (convert c (nestedBranch [nestedLeaf "x", nestedLeaf "y"]) ⟨7⟩).1.root) = .ok text ∧
        Text.tokens text.toList = ["x", "y"] := by
  obtain ⟨c, hc, hn⟩ : ∃ c, Catalog.parse nestedSource = .ok c ∧
      c.templateForTag? "n" = some nestedTemplate := by
    refine ⟨_, parse_nestedSource, ?_⟩
    rw [Catalog.templateForTag?_ofDocument]
    rfl
  have hleaf : ∀ text, Text.IsToken text →
      ConformsAt c (nestedLeaf text) ∧ KeepsAt c (nestedLeaf text) := by
    intro text htext
    refine conformsAt_keepsAt_of_fits hn (rfl : _ = [nestedToken]) (by decide) (by decide) ?_
    exact .present ⟨rfl, by simp [nestedToken], by simp [Tree.Slot.childTokens, htext]⟩ .nil
  have hbranch : ConformsAt c (nestedBranch [nestedLeaf "x", nestedLeaf "y"]) ∧
      KeepsAt c (nestedBranch [nestedLeaf "x", nestedLeaf "y"]) := by
    have htaken : nestedTemplate.fields.flatMap
        (takenFields c (nestedBranch [nestedLeaf "x", nestedLeaf "y"])) = [nestedNodes] := by
      have hcovered : [nestedLeaf "x", nestedLeaf "y"].any (hasTemplate c) = true := by
        simp [hasTemplate, nestedLeaf, Tree.Node.tag, hn]
      rw [nestedTemplate, List.flatMap_singleton, takenFields, alternativeFor_nestedBranch hcovered]
      rfl
    refine conformsAt_keepsAt_of_fits hn htaken (by decide) (by decide) ?_
    exact .present ⟨rfl, by simp [nestedNodes], by simp [Tree.Slot.childTokens]⟩ .nil
  have hx := hleaf "x" (Text.isToken_of_all (by decide) (by decide))
  have hy := hleaf "y" (Text.isToken_of_all (by decide) (by decide))
  have hall : ∀ p : Tree.Node → Prop, p (nestedLeaf "x") → p (nestedLeaf "y") →
      p (nestedBranch [nestedLeaf "x", nestedLeaf "y"]) →
      (nestedBranch [nestedLeaf "x", nestedLeaf "y"]).Everywhere p := by
    intro p hx hy hbranch
    have hleaf : ∀ text, p (nestedLeaf text) → (nestedLeaf text).Everywhere p :=
      fun text h => .intro h (by simp [nestedLeaf, Tree.Node.fields, Tree.Slot.childNodes])
    refine .intro hbranch ?_
    simp [nestedBranch, Tree.Node.fields, Tree.Slot.childNodes, hleaf _ hx, hleaf _ hy]
  have hconforms : Conforms c _ := hall (ConformsAt c) hx.1 hy.1 hbranch.1
  have hids : coverage c (nestedBranch [nestedLeaf "x", nestedLeaf "y"]) ≤ UInt64.size :=
    coverage_le_of_visits (by simp [visits_nestedBranch hn, visits_nestedLeaf hn, UInt64.size])
  obtain ⟨text, htext, -, htokens⟩ := tokens_toCode_convert hc hconforms ⟨7⟩ hids
    (s := { catalog := .ofCatalog c }) rfl
  exact ⟨c, hc, hconforms, text, htext, htokens (hall (KeepsAt c) hx.2 hy.2 hbranch.2)⟩

/-- A schema whose one kind of node has one of two tokens. -/
def eitherSource : String :=
  "<Tree><Node Name='N'><Kind Name='n'/><Choice><Field Name='A' Type='SyntaxToken'/>
    <Field Name='B' Type='SyntaxToken'/></Choice></Node></Tree>"

/-- The field of the second token. -/
def eitherSecond : FieldSpec where
  name := "B"
  declaredType := "SyntaxToken"

/-- The one kind of node. -/
def eitherTemplate : Template where
  name := "N"
  kinds := ["n"]
  fields := [.choice none false [.ofSpec nestedToken, .ofSpec eitherSecond] 0]

/-- A node with the second token. -/
def eitherTree : Tree.Node :=
  .mk "n" [("B", .token { tag := "word", text := "b" })]

/-- Nothing speaks for an alternative of tokens without tags, so the first is taken, and the token of
the second is lost. -/
theorem tokens_toCode_eitherTree :
    ∃ c, Catalog.parse eitherSource = .ok c ∧ Conforms c eitherTree ∧
      ∃ text, ({ catalog := .ofCatalog c } : Synchronizer).toCode
          (Graph.ofRoot (convert c eitherTree ⟨1⟩).1.root) = .ok text ∧
        Text.tokens text.toList = [] ∧ eitherTree.texts = ["b"] := by
  have hc : Catalog.parse eitherSource = .ok (.ofDocument { nodes := [eitherTemplate] }) :=
    Catalog.parse_eq_ok (by decide +kernel)
  have hn : (Catalog.ofDocument { nodes := [eitherTemplate] }).templateForTag? "n" =
      some eitherTemplate := by
    rw [Catalog.templateForTag?_ofDocument]
    rfl
  generalize Catalog.ofDocument { nodes := [eitherTemplate] } = c at hc hn
  have hfits : Fits [eitherSecond] eitherTree.fields := by
    have hb : Text.IsToken "b" := Text.isToken_of_all (by decide) (by decide)
    exact .present ⟨rfl, by simp [eitherSecond], by simp [Tree.Slot.childTokens, hb]⟩ .nil
  have hconforms : Conforms c eitherTree := by
    refine .intro ⟨eitherTemplate, hn, [eitherSecond], by decide, by decide, by decide, hfits⟩ ?_
    simp [eitherTree, Tree.Node.fields, Tree.Slot.childNodes]
  have htext : treeText c eitherTree = "" := by
    rw [treeText_of_some hn]
    rfl
  have hids : coverage c eitherTree ≤ UInt64.size := by
    have hnames : Units.nodeFieldNames eitherTemplate.fields = [] := by decide
    have hvisits : visits c eitherTree = [eitherTree] := by
      rw [visits_of_some hn, hnames]
      rfl
    exact coverage_le_of_visits (by simp [hvisits, UInt64.size])
  refine ⟨c, hc, hconforms, "", ?_, rfl, rfl⟩
  rw [← htext]
  exact congrArg _ (emit_convert (Catalog.isBare_of_parse hc) eitherTree ⟨1⟩ hids)

end SyntaxGraph.Conversion
