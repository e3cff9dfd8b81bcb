import SyntaxGraph.Proofs.Text.Tokens
import SyntaxGraph.Schema.Catalog
import SyntaxGraph.Tree.Basic

/-!
# Trees that conform to a schema

A node conforms to the template of its tag when one alternative of each choice can be selected such
that the fields of the node are the fields that are left, in order, less some optional ones, each
with contents of its kind. A tree conforms when all of its nodes do.
-/

namespace SyntaxGraph

/-! ### Selections -/

mutual

/-- The lists of fields that a unit can come to when one alternative is selected in each choice. A
choice without alternatives comes to nothing. -/
def FieldUnit.selections : FieldUnit → List (List FieldSpec)
  | .single f _ => [[f]]
  | .choice _ _ cs _ => if cs.isEmpty then [[]] else Units.alternatives cs
  | .sequence cs => Units.selections cs

/-- The lists of fields that one of the units can come to. -/
def Units.alternatives : List FieldUnit → List (List FieldSpec)
  | [] => []
  | u :: us => u.selections ++ Units.alternatives us

/-- The lists of fields that the units can come to together. -/
def Units.selections : List FieldUnit → List (List FieldSpec)
  | [] => [[]]
  | u :: us => u.selections.flatMap fun fs => (Units.selections us).map (fs ++ ·)

end

theorem Units.mem_alternatives {us : List FieldUnit} {u : FieldUnit} (hu : u ∈ us)
    {fs : List FieldSpec} (h : fs ∈ u.selections) : fs ∈ Units.alternatives us := by
  induction us with
  | nil => simp at hu
  | cons v us ih =>
    rw [Units.alternatives, List.mem_append]
    rcases List.mem_cons.1 hu with rfl | hu
    · exact .inl h
    · exact .inr (ih hu)

theorem Units.flatMap_mem_selections {pick : FieldUnit → List FieldSpec} {us : List FieldUnit}
    (h : ∀ u ∈ us, pick u ∈ u.selections) : us.flatMap pick ∈ Units.selections us := by
  induction us with
  | nil => simp [Units.selections]
  | cons u us ih =>
    have ih := ih fun v hv => h v (List.mem_cons_of_mem _ hv)
    rw [Units.selections, List.flatMap_cons, List.mem_flatMap]
    exact ⟨pick u, h u List.mem_cons_self, List.mem_map_of_mem ih⟩

namespace Tree

/-! ### Slots, nodes and their tokens -/

/-- The contents of a slot are those of a field of the kind. -/
def Slot.isOf : Slot → FieldKind → Bool
  | .token _, .token => true
  | .tokens _, .tokenList => true
  | .node _, .singleNode => true
  | .nodes _, .nodeList => true
  | .nodes _, .separatedNodeList => true
  | _, _ => false

mutual

/-- The texts of the tokens of a node, in the order of its fields. -/
def Node.texts : Node → List String
  | .mk _ fields => textsOfFields fields

/-- The texts of the tokens in a slot, in order. -/
def Slot.texts : Slot → List String
  | .token t => [t.text]
  | .tokens ts => ts.map (·.text)
  | .node n => n.texts
  | .nodes ns => textsOfNodes ns

/-- The texts of the tokens in the slots, one slot after the other. -/
def textsOfFields : List (String × Slot) → List String
  | [] => []
  | (_, slot) :: fields => slot.texts ++ textsOfFields fields

/-- The texts of the tokens of the nodes, one node after the other. -/
def textsOfNodes : List Node → List String
  | [] => []
  | n :: ns => n.texts ++ textsOfNodes ns

end

theorem textsOfFields_eq_flatMap (fields : List (String × Slot)) :
    textsOfFields fields = fields.flatMap (·.2.texts) := by
  induction fields with
  | nil => rw [textsOfFields]; rfl
  | cons f fields ih => rw [textsOfFields, ih]; rfl

theorem textsOfNodes_eq_flatMap (ns : List Node) : textsOfNodes ns = ns.flatMap Node.texts := by
  induction ns with
  | nil => rw [textsOfNodes]; rfl
  | cons n ns ih => rw [textsOfNodes, ih]; rfl

theorem Node.texts_eq (n : Node) : n.texts = n.fields.flatMap (·.2.texts) := by
  cases n with
  | mk tag fields => rw [Node.texts, textsOfFields_eq_flatMap]; rfl

/-- The tokens in a slot are its own or those of its nodes. -/
theorem Slot.texts_eq (slot : Slot) :
    slot.texts = slot.childTokens.map (·.text) ++ slot.childNodes.flatMap Node.texts := by
  cases slot with
  | token t => rw [Slot.texts]; rfl
  | tokens ts => rw [Slot.texts]; simp [childTokens, childNodes]
  | node n => rw [Slot.texts]; simp [childTokens, childNodes]
  | nodes ns => rw [Slot.texts, textsOfNodes_eq_flatMap]; simp [childTokens, childNodes]

/-- The property holds of the node and of all nodes below it. -/
inductive Node.Everywhere (p : Node → Prop) : Node → Prop where
  | intro {n : Node} (here : p n)
      (below : ∀ f ∈ n.fields, ∀ m ∈ f.2.childNodes, Node.Everywhere p m) : Node.Everywhere p n

theorem Node.Everywhere.here {p : Node → Prop} {n : Node} (h : n.Everywhere p) : p n := by
  cases h with
  | intro here _ => exact here

theorem Node.Everywhere.child {p : Node → Prop} {n m : Node} (h : n.Everywhere p) {name : String}
    (hm : m ∈ n.childrenOf name) : m.Everywhere p := by
  cases h with
  | intro _ below =>
    unfold childrenOf at hm
    cases hslot : n.field? name with
    | none => simp [hslot] at hm
    | some slot =>
      rw [hslot] at hm
      exact below (name, slot) (Table.mem_of_lookup hslot) m hm

end Tree

/-! ### Conforming -/

/-- What the slot holds is right for the field: it is of its kind, it has the tags that the field
recognizes if there are any, and its tokens have a text that can be read back. -/
structure FieldSpec.Accepts (f : FieldSpec) (slot : Tree.Slot) : Prop where
  kind : slot.isOf f.kind = true
  tags : f.kinds ≠ [] →
    ∀ tag ∈ slot.childTokens.map (·.tag) ++ slot.childNodes.map (·.tag), tag ∈ f.kinds
  tokens : ∀ t ∈ slot.childTokens, t.missing = false ∧ Text.IsToken t.text

/-- The slots of a node are those of the fields, in order, less some optional ones. -/
inductive Fits : List FieldSpec → List (String × Tree.Slot) → Prop where
  | nil : Fits [] []
  | absent {f : FieldSpec} {fs : List FieldSpec} {slots : List (String × Tree.Slot)}
      (optional : f.optional = true) (rest : Fits fs slots) : Fits (f :: fs) slots
  | present {f : FieldSpec} {fs : List FieldSpec} {slot : Tree.Slot}
      {slots : List (String × Tree.Slot)} (accepts : f.Accepts slot) (rest : Fits fs slots) :
      Fits (f :: fs) ((f.name, slot) :: slots)

/-- The node has a template, and its slots fit the fields that some selection of alternatives
leaves; the names of these fields are distinct and not empty. -/
def ConformsAt (c : Schema.Catalog) (n : Tree.Node) : Prop :=
  ∃ t, c.templateForTag? n.tag = some t ∧ ∃ fs ∈ Units.selections t.fields,
    (fs.map (·.name)).Nodup ∧ (∀ f ∈ fs, f.name ≠ "") ∧ Fits fs n.fields

/-- All nodes of the tree conform to their templates. -/
def Conforms (c : Schema.Catalog) (n : Tree.Node) : Prop :=
  n.Everywhere (ConformsAt c)

namespace Fits

variable {fs : List FieldSpec} {slots : List (String × Tree.Slot)}

theorem sublist_names (h : Fits fs slots) : (slots.map (·.1)).Sublist (fs.map (·.name)) := by
  induction h with
  | nil => exact .slnil
  | absent _ _ ih => exact ih.cons _
  | present _ _ ih => exact ih.cons_cons _

theorem exists_of_mem (h : Fits fs slots) {s : String × Tree.Slot} (hs : s ∈ slots) :
    ∃ f ∈ fs, f.name = s.1 ∧ f.Accepts s.2 := by
  induction h with
  | nil => simp at hs
  | absent _ _ ih =>
    obtain ⟨f, hf, hfs⟩ := ih hs
    exact ⟨f, List.mem_cons_of_mem _ hf, hfs⟩
  | present accepts _ ih =>
    rcases List.mem_cons.1 hs with rfl | hs
    · exact ⟨_, List.mem_cons_self, rfl, accepts⟩
    · obtain ⟨f, hf, hfs⟩ := ih hs
      exact ⟨f, List.mem_cons_of_mem _ hf, hfs⟩

end Fits

namespace ConformsAt

variable {c : Schema.Catalog} {n : Tree.Node}

theorem nodup_names (h : ConformsAt c n) : (n.fields.map (·.1)).Nodup := by
  obtain ⟨t, -, fs, -, hnodup, -, hfits⟩ := h
  exact hnodup.sublist hfits.sublist_names

theorem field?_eq_some (h : ConformsAt c n) {s : String × Tree.Slot} (hs : s ∈ n.fields) :
    n.field? s.1 = some s.2 :=
  Table.lookup_of_mem h.nodup_names hs

theorem field?_empty (h : ConformsAt c n) : n.field? "" = none := by
  obtain ⟨t, -, fs, -, -, hnames, hfits⟩ := h
  cases hslot : n.field? "" with
  | none => rfl
  | some slot =>
    obtain ⟨f, hf, hname, -⟩ := hfits.exists_of_mem (Table.mem_of_lookup hslot)
    exact absurd hname (hnames f hf)

/-- The tokens in the slots of the node have a text that can be read back. -/
theorem isToken (h : ConformsAt c n) {name : String} {slot : Tree.Slot}
    (hslot : n.field? name = some slot) {t : Tree.Token} (ht : t ∈ slot.childTokens) :
    t.missing = false ∧ Text.IsToken t.text := by
  obtain ⟨_, -, fs, -, -, -, hfits⟩ := h
  obtain ⟨f, -, -, haccepts⟩ := hfits.exists_of_mem (Table.mem_of_lookup hslot)
  exact haccepts.tokens t ht

end ConformsAt

end SyntaxGraph
