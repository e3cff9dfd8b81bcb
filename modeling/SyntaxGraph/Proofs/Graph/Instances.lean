import SyntaxGraph.Emission
import SyntaxGraph.Outline
import SyntaxGraph.Proofs.Graph.Invariants
import SyntaxGraph.Proofs.Instance
import SyntaxGraph.Proofs.TreeText

/-!
# The instances of a graph

The graphs that are made with one schema: they begin empty or as the graph of a converted tree, and
then any edits are made, where new nodes are of templates of the schema and an instance that is
inserted comes from such a graph. Every instance of such a graph is faithful to its template, so at
every choice emission and outlines take the alternative that is selected.

An instance of a graph after an edit was there before, is new, was inserted, or comes from one that
was there by an update. This is all that is said of edits here.
-/

namespace SyntaxGraph

open Schema (Catalog)

namespace Schema.Catalog

theorem mem_nodes_of_template? {doc : Document} {name : String} {t : Template}
    (h : (ofDocument doc).template? name = some t) : t ∈ doc.nodes := by
  have hlookup : (doc.nodes.map fun t => (t.name, t)).reverse.lookup name = some t := by
    rw [← getElem?_table]
    exact h
  have hmem : (name, t) ∈ doc.nodes.map fun t => (t.name, t) :=
    List.mem_reverse.1 (Table.mem_of_lookup hlookup)
  obtain ⟨s, hs, heq⟩ := List.mem_map.1 hmem
  obtain ⟨-, rfl⟩ := Prod.mk.inj heq
  exact hs

/-- A catalog that was read from text is the index of its document, whose templates are bare. -/
theorem document_of_parse {source : String} {c : Catalog} (h : parse source = .ok c) :
    c = ofDocument c.document ∧ c.document.IsBare := by
  obtain ⟨doc, hdoc, rfl⟩ := exists_of_map_eq_ok h
  exact ⟨rfl, Document.isBare_of_parse hdoc⟩

end Schema.Catalog

namespace Graph

/-! ### Where instances come from -/

/-- The template that an edit makes a new instance of. -/
def Edit.template? : Edit → Option Template
  | .addNode t => some t
  | .addNamed c name => c.template? name
  | _ => none

/-- How an instance of a graph after an edit comes from the graph before it. -/
inductive Comes (g : Graph) (counter : Counter) (e : Edit) : Instance → Prop where
  | kept {n : GraphNode} {i : Instance} (hn : n ∈ g.nodes) (hi : n.state = some i) :
    Comes g counter e i
  | stamped {t : Template} (ht : e.template? = some t) : Comes g counter e (Instance.stamp t counter).1
  | inserted {i : Instance} (he : e = .insert i) : Comes g counter e i
  | updated {n : GraphNode} {i j : Instance} (hn : n ∈ g.nodes) (hi : n.state = some i)
    (h : i.Update j) : Comes g counter e j

section Comes

variable {g : Graph} {counter : Counter} {e : Edit}

theorem comes_put {m n : GraphNode} (hn : n ∈ putNode m g.nodes) {i : Instance}
    (hi : n.state = some i) (hm : ∀ j, m.state = some j → Comes g counter e j) :
    Comes g counter e i := by
  rcases mem_putNode hn with rfl | hn
  · exact hm i hi
  · exact .kept hn hi

theorem comes_withState {id : InstanceId} {k j : Instance} (hk : g.state? id = some k)
    (hupdate : k.Update j) {n : GraphNode} (hn : n ∈ (g.withState id j).nodes) {i : Instance}
    (hi : n.state = some i) : Comes g counter e i := by
  obtain ⟨m, hm, rfl⟩ := List.mem_map.1 hn
  split at hi
  · obtain rfl : j = i := Option.some.inj hi
    obtain ⟨m', hm', -, hstate⟩ := exists_mem_of_state? hk
    exact .updated hm' hstate hupdate
  · exact .kept hm hi

/-- An edit that takes no id and may fail: it is enough to look at its success. -/
theorem comes_ofResult {r : Except Error Graph} {n : GraphNode}
    (hn : n ∈ (Edited.ofResult g counter r).graph.nodes) {i : Instance} (hi : n.state = some i)
    (h : ∀ g', r = .ok g' → n ∈ g'.nodes → Comes g counter e i) : Comes g counter e i := by
  cases r with
  | error fault => exact .kept hn hi
  | ok g' => exact h g' rfl hn

theorem comes_selectChoice {id : InstanceId} {path : List Nat} {index : Nat} {g' : Graph}
    (h : g.selectChoice id path index = .ok g') {n : GraphNode} (hn : n ∈ g'.nodes) {i : Instance}
    (hi : n.state = some i) : Comes g counter e i := by
  obtain ⟨k, hk, h⟩ := Schema.exists_of_bind_eq_ok h
  split at h
  · rename_i hat
    split at h
    · rename_i hlt
      split at h
      · rename_i j hj
        obtain rfl := Except.ok.inj h
        exact comes_withState (liveState_eq_ok hk) (.selection hj hat hlt) hn hi
      · simp at h
    · simp at h
  · simp at h

/-- **Where the instances of an edited graph come from.** -/
theorem comes_perform {n : GraphNode} (hn : n ∈ (g.perform counter e).graph.nodes) {i : Instance}
    (hi : n.state = some i) : Comes g counter e i := by
  cases e with
  | addNode t =>
    refine comes_put hn hi fun j hj => ?_
    obtain rfl := Option.some.inj hj
    exact .stamped rfl
  | addNamed c name =>
    simp only [perform, addNamed] at hn
    cases ht : c.template? name with
    | none =>
      simp only [ht] at hn
      exact .kept hn hi
    | some t =>
      simp only [ht] at hn
      refine comes_put hn hi fun j hj => ?_
      obtain rfl := Option.some.inj hj
      exact .stamped ht
  | addPlaceholder => exact comes_put hn hi (by simp)
  | insert k =>
    refine comes_put hn hi fun j hj => ?_
    obtain rfl := Option.some.inj hj
    exact .inserted rfl
  | removeNode id =>
    refine comes_ofResult hn hi fun g' hg' hn => ?_
    obtain ⟨r, hr, rfl⟩ := Schema.exists_of_map_eq_ok hg'
    unfold removeNode at hr
    split at hr
    · obtain rfl := Except.ok.inj hr
      exact .kept (List.mem_of_mem_filter hn) hi
    · simp at hr
  | setValue id field value =>
    refine comes_ofResult hn hi fun g' hg' hn => ?_
    obtain ⟨k, hk, rfl⟩ := Schema.exists_of_map_eq_ok hg'
    exact comes_withState (liveState_eq_ok hk) (.text field value) hn hi
  | selectChoice id path index =>
    exact comes_ofResult hn hi fun g' hg' hn => comes_selectChoice hg' hn hi
  | connect source field target =>
    refine comes_ofResult hn hi fun g' hg' hn => ?_
    unfold connect at hg'
    split at hg'
    · obtain ⟨kind, -, hg'⟩ := Schema.exists_of_bind_eq_ok hg'
      obtain rfl := Except.ok.inj hg'
      exact .kept hn hi
    · simp at hg'
  | disconnect source field target => exact .kept hn hi

end Comes

theorem eq_of_mem_foldl_insert {is : List Instance} {g : Graph} {n : GraphNode}
    (hn : n ∈ (is.foldl insert g).nodes) : n ∈ g.nodes ∨ ∃ i ∈ is, n.state = some i := by
  induction is generalizing g with
  | nil => exact .inl hn
  | cons i is ih =>
    rcases ih hn with hn | ⟨j, hj, hstate⟩
    · rcases mem_putNode hn with rfl | hn
      · exact .inr ⟨i, List.mem_cons_self, rfl⟩
      · exact .inl hn
    · exact .inr ⟨j, List.mem_cons_of_mem i hj, hstate⟩

/-! ### Graphs of one schema -/

/-- An edit with the templates of a catalog. Insertion is not among them. -/
def Edit.IsOf (c : Catalog) : Edit → Prop
  | .addNode t => t ∈ c.document.nodes
  | .addNamed c' _ => c' = c
  | .insert _ => False
  | _ => True

/-- The graph is made with a catalog: it begins empty or as the graph of a converted tree, and then
edits are made, whether they fail or not. What is inserted is an instance of such a graph. The
counter can be at any place whenever it is used. -/
inductive MadeWith (c : Catalog) : Graph → Prop where
  | empty : MadeWith c {}
  | converted (root : Tree.Node) (counter : Counter) :
    MadeWith c (ofRoot (Conversion.convert c root counter).1.root)
  | edited {g : Graph} (hg : MadeWith c g) (counter : Counter) {e : Edit} (he : e.IsOf c) :
    MadeWith c (g.perform counter e).graph
  | inserted {g g' : Graph} (hg : MadeWith c g) (hg' : MadeWith c g') {n : GraphNode}
    (hn : n ∈ g'.nodes) {i : Instance} (hi : n.state = some i) : MadeWith c (g.insert i)

/-- The instance is of a template of the catalog and faithful to it. -/
structure Belongs (c : Catalog) (i : Instance) : Prop where
  template : i.template ∈ c.document.nodes
  faithful : i.Faithful

section MadeWith

variable {c : Catalog}

/-- **One edit.** -/
theorem belongs_perform (hc : c = .ofDocument c.document) (hbare : c.document.IsBare) {g : Graph}
    (hg : ∀ n ∈ g.nodes, ∀ i, n.state = some i → Belongs c i) (counter : Counter) {e : Edit}
    (he : e.IsOf c) :
    ∀ n ∈ (g.perform counter e).graph.nodes, ∀ i, n.state = some i → Belongs c i := by
  intro n hn i hi
  have htemplate : ∀ t, e.template? = some t → t ∈ c.document.nodes := by
    intro t ht
    cases e with
    | addNode s =>
      obtain rfl := Option.some.inj ht
      exact he
    | addNamed c' name =>
      obtain rfl : c' = c := he
      rw [hc] at ht
      exact Catalog.mem_nodes_of_template? ht
    | _ => simp [Edit.template?] at ht
  cases comes_perform hn hi with
  | kept hn hi => exact hg _ hn _ hi
  | stamped ht =>
    have hmem := htemplate _ ht
    exact ⟨hmem, Instance.faithful_stamp (hbare _ hmem) counter⟩
  | inserted hinsert =>
    subst hinsert
    exact he.elim
  | updated hn hi hupdate =>
    have hold := hg _ hn _ hi
    exact ⟨Instance.template_of_update hupdate ▸ hold.template, hold.faithful.update hupdate⟩

/-- The graph of a converted tree. -/
theorem belongs_convert (hc : c = .ofDocument c.document) (hbare : c.document.IsBare)
    (root : Tree.Node) (counter : Counter) :
    ∀ n ∈ (ofRoot (Conversion.convert c root counter).1.root).nodes, ∀ i, n.state = some i →
      Belongs c i := by
  intro n hn i hi
  rw [Conversion.convert_eq] at hn
  cases hroot : (Conversion.convertNode c root counter).1 with
  | none => simp [hroot, ofRoot] at hn
  | some converted =>
    simp only [hroot, ofRoot, ofConverted] at hn
    rcases eq_of_mem_foldl_insert hn with hn | ⟨j, hj, hstate⟩
    · simp at hn
    · obtain rfl : j = i := Option.some.inj (hstate.symm.trans hi)
      obtain ⟨m, hm, rfl⟩ := List.mem_map.1 hj
      obtain ⟨k, counter', hk⟩ := Conversion.converts_of_mem_subtrees ⟨counter, hroot⟩ m hm
      cases ht : c.templateForTag? k.tag with
      | none => simp [Conversion.convertNode_of_none ht] at hk
      | some t =>
        have hmem : t ∈ c.document.nodes := by
          rw [hc] at ht
          exact Catalog.mem_nodes_of_templateForTag? ht
        refine ⟨?_, Conversion.faithful_of_convertNode ht (hbare t hmem) hk⟩
        rwa [Conversion.template_of_convertNode ht hk]

/-- **Every graph.** By induction on how the graph was made. -/
theorem belongs_of_madeWith (hc : c = .ofDocument c.document) (hbare : c.document.IsBare)
    {g : Graph} (hg : MadeWith c g) : ∀ n ∈ g.nodes, ∀ i, n.state = some i → Belongs c i := by
  induction hg with
  | empty => simp
  | converted root counter => exact belongs_convert hc hbare root counter
  | edited hg counter he ih => exact belongs_perform hc hbare ih counter he
  | inserted hg hg' hn hi ih ih' =>
    intro m hm j hj
    rcases mem_putNode hm with rfl | hm
    · obtain rfl := Option.some.inj hj
      exact ih' _ hn _ hi
    · exact ih m hm j hj

end MadeWith

/-! ### What is selected is what is taken -/

section Taken

variable {alternatives : List FieldUnit} {index : Nat}

theorem min_eq_of_withinReach (h : index < alternatives.length ∨ alternatives = [] ∧ index = 0) :
    min index (alternatives.length - 1) = index := by
  rcases h with h | ⟨rfl, rfl⟩
  · omega
  · rfl

/-- Emission goes on with the alternative that is selected. -/
theorem unitWork_choice (h : index < alternatives.length ∨ alternatives = [] ∧ index = 0)
    (ix : EdgeIndex) (owner : InstanceId) (name : Option String) (optional : Bool) :
    Emission.unitWork ix owner (.choice name optional alternatives index) =
      alternatives[index]?.toList.map (.unit owner) := by
  rw [Emission.unitWork, FieldUnit.pick, min_eq_of_withinReach h]
  cases alternatives[index]? <;> rfl

/-- A label shows the texts of the alternative that is selected. -/
theorem selectedTexts_choice (h : index < alternatives.length ∨ alternatives = [] ∧ index = 0)
    (name : Option String) (optional : Bool) :
    Outline.selectedTexts (.choice name optional alternatives index) =
      (alternatives[index]?.map Outline.selectedTexts).getD [] := by
  have htexts : ∀ us : List FieldUnit, Outline.textsOfEach us = us.map Outline.selectedTexts := by
    intro us
    induction us with
    | nil => rw [Outline.textsOfEach]; rfl
    | cons u us ih => rw [Outline.textsOfEach, ih]; rfl
  rw [Outline.selectedTexts, min_eq_of_withinReach h, htexts, List.getElem?_map]

end Taken

/-- **Instances stay faithful to their templates.** Take a catalog that is read from a schema, a graph
that is made with it, and an instance of the graph. The units of the instance are those of its
template but for texts and selections; fields of the same name have the same text, in whatever
alternatives they stand; and every choice selects one of its alternatives, or the first when it has
none. So at every choice emission and labels take exactly the alternative that is selected. -/
theorem faithful_of_madeWith {source : String} {c : Catalog} (hc : Catalog.parse source = .ok c)
    {g : Graph} (hg : MadeWith c g) {n : GraphNode} (hn : n ∈ g.nodes) {i : Instance}
    (hi : n.state = some i) :
    i.template ∈ c.document.nodes ∧
    Units.bare i.fields = Units.bare i.template.fields ∧
    (∀ s ∈ Units.singles i.fields, ∀ s' ∈ Units.singles i.fields,
      s.1.name = s'.1.name → s.2 = s'.2) ∧
    ∀ path name optional alternatives index,
      Units.unitAt? i.fields path = some (.choice name optional alternatives index) →
        (index < alternatives.length ∨ alternatives = [] ∧ index = 0) ∧
        (∀ ix owner, Emission.unitWork ix owner (.choice name optional alternatives index) =
          alternatives[index]?.toList.map (.unit owner)) ∧
        Outline.selectedTexts (.choice name optional alternatives index) =
          (alternatives[index]?.map Outline.selectedTexts).getD [] := by
  obtain ⟨hdocument, hbare⟩ := Catalog.document_of_parse hc
  obtain ⟨htemplate, hfaithful⟩ := belongs_of_madeWith hdocument hbare hg n hn i hi
  refine ⟨htemplate, hfaithful.shape, hfaithful.texts, ?_⟩
  intro path name optional alternatives index hat
  have hreach := hfaithful.selections path name optional alternatives index hat
  exact ⟨hreach, fun ix owner => unitWork_choice hreach ix owner name optional,
    selectedTexts_choice hreach name optional⟩

/-- A node with its second alternative selected and, all the same, a text in the first. -/
def editedNode : Instance where
  id := ⟨1⟩
  template := Conversion.nestedTemplate
  fields := [.choice none false [.single Conversion.nestedToken (some "x"),
    .ofSpec Conversion.nestedNodes] 1]

/-- A graph with such a node, after the attempt to select a third alternative. -/
def editedGraph : Graph :=
  [Edit.addNode Conversion.nestedTemplate, .selectChoice ⟨1⟩ [0] 1, .setValue ⟨1⟩ "A" (some "x"),
    .selectChoice ⟨1⟩ [0] 2].foldl (fun g e => (g.perform {} e).graph) {}

theorem faithful_editedNode :
    ∃ c, Catalog.parse Conversion.nestedSource = .ok c ∧ MadeWith c editedGraph ∧
      ⟨⟨1⟩, some editedNode⟩ ∈ editedGraph.nodes ∧
      Units.bare editedNode.fields = Units.bare Conversion.nestedTemplate.fields ∧
      Outline.selectedTexts (.choice none false [.single Conversion.nestedToken (some "x"),
        .ofSpec Conversion.nestedNodes] 1) = [] := by
  have hmade : MadeWith (.ofDocument { nodes := [Conversion.nestedTemplate] }) editedGraph := by
    refine .edited (.edited (.edited (.edited .empty {} ?_) {} ?_) {} ?_) {} ?_
    · exact List.mem_singleton.2 rfl
    · trivial
    · trivial
    · trivial
  have hmem : ⟨⟨1⟩, some editedNode⟩ ∈ editedGraph.nodes := by decide
  obtain ⟨-, hshape, -, hchoices⟩ :=
    faithful_of_madeWith Conversion.parse_nestedSource hmade hmem rfl
  exact ⟨_, Conversion.parse_nestedSource, hmade, hmem, hshape, (hchoices [0] _ _ _ _ rfl).2.2⟩

end Graph

end SyntaxGraph
