import SyntaxGraph.Store
import SyntaxGraph.Text.Lowercase
import SyntaxGraph.Text.Quoted
import SyntaxGraph.Total

/-!
# Outlines

An outline shows a converted tree or a graph with one line for each node, children indented under
their parent and led by the field they hang from. A label has the name of the template and the
texts of the selected alternatives. A node that was shown before is not expanded again.

Both outlines are drawn from a stack of lines that are still to be written. For a tree the stack
holds ever fewer nodes; for a graph every line either expands an instance that was not shown yet or
makes the stack shorter.
-/

namespace SyntaxGraph.Outline

/-! ### Labels -/

mutual

/-- The texts of the selected alternatives of a unit, each with the name of its field. -/
def selectedTexts : FieldUnit → List (String × String)
  | .single f v => (v.map (f.name, ·)).toList
  | .choice _ _ cs i => (textsOfEach cs)[min i (cs.length - 1)]?.getD []
  | .sequence cs => (textsOfEach cs).flatten

/-- The texts of the selected alternatives, unit by unit. -/
def textsOfEach : List FieldUnit → List (List (String × String))
  | [] => []
  | u :: us => selectedTexts u :: textsOfEach us

end

/-- The parameters of an outline, by name. -/
abbrev Parameters := List (String × String)

/-- A parameter is switched on: its value is `true` in any case. -/
def isOn (parameters : Parameters) (name : String) : Bool :=
  match parameters.lookup name with
  | some value => Text.lowercase value == "true"
  | none => false

/-- Whether labels show ids. -/
def showsIds (parameters : Parameters) : Bool :=
  isOn parameters "show-ids"

/-- The label of an instance. -/
def instanceLabel (showIds : Bool) (i : Instance) : String :=
  let texts := (textsOfEach i.fields).flatten.map fun t => t.1 ++ "=" ++ Text.quoted t.2
  i.name ++ (if showIds then " " ++ i.id.text else "") ++
    (if texts.isEmpty then "" else " [" ++ ", ".intercalate texts ++ "]")

/-- The label of a node without an instance. -/
def placeholderLabel (showIds : Bool) (id : InstanceId) : String :=
  "∅ placeholder" ++ if showIds then " " ++ id.text else ""

/-! ### Lines -/

/-- What an outline is drawn from. -/
structure Source (α : Type) where
  id : α → InstanceId
  label : α → String
  children : α → List (String × α)

/-- A line that is still to be written. -/
structure Line (α : Type) where
  node : α
  field : Option String
  indent : String
  /-- Whether the node is the last child of its parent; `none` for a root. -/
  last : Option Bool

/-- What stands in front of the label. -/
def Line.lead (l : Line α) : String :=
  (match l.last with
    | none => ""
    | some true => l.indent ++ "└─ "
    | some false => l.indent ++ "├─ ") ++
  match l.field with
  | some field => field ++ ": "
  | none => ""

/-- The indentation of the lines below. -/
def Line.below (l : Line α) : String :=
  match l.last with
  | none => ""
  | some true => l.indent ++ "  "
  | some false => l.indent ++ "│ "

/-- The lines of the children of a node. -/
def childLines (indent : String) : List (String × α) → List (Line α)
  | [] => []
  | [(field, n)] => [⟨n, some field, indent, some true⟩]
  | (field, n) :: c :: cs => ⟨n, some field, indent, some false⟩ :: childLines indent (c :: cs)

/-- The line of a root. -/
def rootLine (n : α) : Line α :=
  ⟨n, none, "", none⟩

/-- The state of a drawing. -/
structure Drawing (α : Type) where
  out : String
  /-- The ids of the nodes that were shown. -/
  shown : List InstanceId
  stack : List (Line α)

/-- Writes the next line. -/
def step (s : Source α) (d : Drawing α) : Option (Drawing α) :=
  match d.stack with
  | [] => none
  | l :: rest =>
    let text := d.out ++ l.lead ++ s.label l.node
    if s.id l.node ∈ d.shown then some { d with out := text ++ " (shown above)\n", stack := rest }
    else
      some {
        out := text ++ "\n"
        shown := s.id l.node :: d.shown
        stack := childLines l.below (s.children l.node) ++ rest }

/-- The drawing before its first line. -/
def start (roots : List α) : Drawing α :=
  ⟨"", [], roots.map rootLine⟩

/-! ### Converted trees -/

/-- A converted tree as a source of outlines. -/
def treeSource (showIds : Bool) : Source ConvertedNode where
  id := ConvertedNode.id
  label n := instanceLabel showIds n.state
  children := ConvertedNode.links

/-- The number of nodes at and below the lines. -/
def nodesLeft (ls : List (Line ConvertedNode)) : Nat :=
  total (ls.map fun l => l.node.count)

theorem nodesLeft_childLines (indent : String) (cs : List (String × ConvertedNode)) :
    nodesLeft (childLines indent cs) = total (cs.map fun c => c.2.count) := by
  fun_induction childLines indent cs with
  | case1 => rfl
  | case2 => rfl
  | case3 f n c cs ih => simp_all [nodesLeft]

theorem length_subtreesOfNodes (ns : List ConvertedNode) :
    (ConvertedNode.subtreesOfNodes ns).length = total (ns.map fun n => n.count) := by
  induction ns with
  | nil => rfl
  | cons n ns ih => simp [ConvertedNode.subtreesOfNodes, ih, ConvertedNode.count]

theorem length_subtreesOfFields (fs : List (String × List ConvertedNode)) :
    (ConvertedNode.subtreesOfFields fs).length =
      total ((fs.flatMap fun f => f.2.map (f.1, ·)).map fun c => c.2.count) := by
  induction fs with
  | nil => rfl
  | cons f fs ih =>
    obtain ⟨name, ns⟩ := f
    simp [ConvertedNode.subtreesOfFields, ih, length_subtreesOfNodes, Function.comp_def]

theorem count_eq (n : ConvertedNode) :
    n.count = 1 + total (n.links.map fun c => c.2.count) := by
  cases n with
  | mk s cs =>
    simp only [ConvertedNode.count, ConvertedNode.subtrees, List.length_cons,
      length_subtreesOfFields, ConvertedNode.links, ConvertedNode.children]
    omega

theorem nodesLeft_step {showIds : Bool} {d e : Drawing ConvertedNode}
    (h : step (treeSource showIds) d = some e) : nodesLeft e.stack < nodesLeft d.stack := by
  unfold step at h
  split at h
  · simp at h
  · rename_i l rest hd
    have hc := count_eq l.node
    simp only [hd, nodesLeft, List.map_cons, total_cons]
    split at h
    · cases h
      simp only
      omega
    · cases h
      have := nodesLeft_childLines l.below l.node.links
      simp only [nodesLeft, treeSource, List.map_append, total_append] at this ⊢
      omega

/-- Writes all lines of a tree. -/
def drawTree (showIds : Bool) (d : Drawing ConvertedNode) : Drawing ConvertedNode :=
  match h : step (treeSource showIds) d with
  | none => d
  | some e =>
    have := nodesLeft_step h
    drawTree showIds e
termination_by nodesLeft d.stack

/-- The outline of a converted tree. -/
def ofConverted (parameters : Parameters) (root : ConvertedNode) : String :=
  (drawTree (showsIds parameters) (start [root])).out

/-! ### Graphs -/

/-- The children of a node of a graph, field by field in the order of the schema. -/
def graphChildren (store : Store) (ix : EdgeIndex) (id : InstanceId) :
    List (String × InstanceId) :=
  match store.state? id with
  | some i =>
    (Units.nodeFieldNames i.fields).flatMap fun field => (ix.children id field).map (field, ·)
  | none => []

/-- A graph as a source of outlines. -/
def graphSource (store : Store) (ix : EdgeIndex) (showIds : Bool) : Source InstanceId where
  id n := n
  label n :=
    match store.state? n with
    | some i => instanceLabel showIds i
    | none => placeholderLabel showIds n
  children := graphChildren store ix

theorem graph_step {store : Store} {ix : EdgeIndex} {showIds : Bool} {d e : Drawing InstanceId}
    (h : step (graphSource store ix showIds) d = some e) :
    store.dormant e.shown < store.dormant d.shown ∨
      store.dormant e.shown = store.dormant d.shown ∧ e.stack.length < d.stack.length := by
  unfold step at h
  split at h
  · simp at h
  · rename_i l rest hd
    rw [hd]
    split at h
    · cases h
      exact .inr ⟨rfl, by simp⟩
    · rename_i hn
      cases h
      cases hs : store.state? l.node with
      | some i => exact .inl (Store.dormant_cons_lt hs hn)
      | none =>
        have hle := Store.dormant_cons_le store d.shown l.node
        have hlen : (childLines l.below (graphChildren store ix l.node) ++ rest).length <
            (l :: rest).length := by
          simp [graphChildren, hs, childLines]
        rcases Nat.lt_or_eq_of_le hle with hlt | heq
        · exact .inl hlt
        · exact .inr ⟨heq, hlen⟩

/-- Writes all lines of a graph. -/
def drawGraph (store : Store) (ix : EdgeIndex) (showIds : Bool) (d : Drawing InstanceId) :
    Drawing InstanceId :=
  match h : step (graphSource store ix showIds) d with
  | none => d
  | some e =>
    have := graph_step h
    drawGraph store ix showIds e
termination_by (store.dormant d.shown, d.stack.length)
decreasing_by
  rcases this with h | ⟨h₁, h₂⟩
  · exact .left _ _ h
  · rw [h₁]
    exact .right _ h₂

/-- The outline of a graph, drawn from its roots. -/
def ofGraph (parameters : Parameters) (g : Graph) : String :=
  (drawGraph (.ofGraph g) (.build g.edges) (showsIds parameters) (start g.roots)).out

end SyntaxGraph.Outline
