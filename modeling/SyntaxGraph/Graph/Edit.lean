import SyntaxGraph.Graph.Basic
import SyntaxGraph.Schema.Catalog

/-!
# Editing graphs

Every node has one input, so connecting into a node replaces its previous parent; a field for a
single node holds one child, so connecting from it replaces its previous child; a list field takes
any number of children, in the order in which they were connected. An edit that fails changes
nothing.
-/

namespace SyntaxGraph

namespace Graph

/-- Why the JSON of a graph is refused. -/
inductive JsonFault where
  /-- The text is not the JSON of a graph. -/
  | malformed
  | duplicateNode
  | foreignState (node owner : InstanceId)
  | instanceOutOfRange (id : InstanceId)
deriving DecidableEq, Repr, Inhabited

/-- The wording of a fault. -/
def JsonFault.message : JsonFault → String
  | .malformed => "not the JSON of a graph"
  | .duplicateNode => "duplicate node id"
  | .foreignState node owner => "node " ++ node.text ++ " carries the state of " ++ owner.text
  | .instanceOutOfRange id => "instance id " ++ id.text ++ " is out of range"

/-- Why an edit or a load fails. -/
inductive Error where
  | unknownNode (id : InstanceId)
  | noLiveState (id : InstanceId)
  | notANodeField (template field : String)
  | unknownTemplate (name : String)
  | invalidChoice (id : InstanceId) (path : List Nat) (index : Nat)
  | idOutOfRange (id : InstanceId)
  | json (fault : JsonFault)
deriving DecidableEq, Repr, Inhabited

/-- A path between square brackets. -/
def pathText (path : List Nat) : String :=
  "[" ++ ", ".intercalate (path.map toString) ++ "]"

/-- The message of an error. -/
def Error.message : Error → String
  | .unknownNode id => "Node " ++ id.text ++ " is not part of the graph"
  | .noLiveState id => "Node " ++ id.text ++ " has no template state"
  | .notANodeField template field =>
    "Template '" ++ template ++ "' has no node field named '" ++ field ++ "'"
  | .unknownTemplate name => "Template '" ++ name ++ "' not found in schema"
  | .invalidChoice id path index =>
    "Node " ++ id.text ++ " has no choice at " ++ pathText path ++ " accepting index " ++
      toString index
  | .idOutOfRange id => "Node id " ++ id.text ++ " is out of range"
  | .json fault => "Graph JSON error: " ++ fault.message

/-! ### Nodes -/

/-- Adds a new instance of a template. -/
def addNode (g : Graph) (t : Template) (counter : Counter) : InstanceId × Graph × Counter :=
  let (i, counter) := Instance.stamp t counter
  (i.id, g.insert i, counter)

/-- Adds a new instance of the template of a name. -/
def addNamed (g : Graph) (c : Schema.Catalog) (name : String) (counter : Counter) :
    Except Error (InstanceId × Graph × Counter) :=
  match c.template? name with
  | some t => .ok (g.addNode t counter)
  | none => .error (.unknownTemplate name)

/-- Adds a node without an instance. -/
def addPlaceholder (g : Graph) (counter : Counter) : InstanceId × Graph × Counter :=
  let (id, counter) := counter.fresh
  (id, { g with nodes := putNode ⟨id, none⟩ g.nodes }, counter)

/-- Removes a node and the edges at it. -/
def removeNode (g : Graph) (id : InstanceId) : Except Error (GraphNode × Graph) :=
  match g.node? id with
  | some n => .ok (n, {
      nodes := g.nodes.filter (·.id != id)
      edges := g.edges.filter fun e => e.source != id && e.target != id })
  | none => .error (.unknownNode id)

/-! ### Instances -/

/-- The instance of a node that must have one. -/
def liveState (g : Graph) (id : InstanceId) : Except Error Instance :=
  match g.node? id with
  | none => .error (.unknownNode id)
  | some n =>
    match n.state with
    | none => .error (.noLiveState id)
    | some i => .ok i

/-- The graph in which a node has another instance. -/
def withState (g : Graph) (id : InstanceId) (i : Instance) : Graph :=
  { g with nodes := g.nodes.map fun n => if n.id = id then { n with state := some i } else n }

/-- Sets or clears the text of a field. -/
def setValue (g : Graph) (id : InstanceId) (field : String) (value : Option String) :
    Except Error Graph :=
  (g.liveState id).map fun i => g.withState id (i.withValue field value)

/-- Selects an alternative of the choice at a path, which must have it. -/
def selectChoice (g : Graph) (id : InstanceId) (path : List Nat) (index : Nat) :
    Except Error Graph := do
  let i ← g.liveState id
  match Units.unitAt? i.fields path with
  | some (.choice _ _ alternatives _) =>
    if index < alternatives.length then
      match i.withChoice? path index with
      | some i => .ok (g.withState id i)
      | none => .error (.invalidChoice id path index)
    else .error (.invalidChoice id path index)
  | _ => .error (.invalidChoice id path index)

/-! ### Edges -/

/-- The kind of a node field of a node. -/
def nodeFieldKind (g : Graph) (id : InstanceId) (field : String) : Except Error FieldKind := do
  let i ← g.liveState id
  match i.nodeFieldKind? field with
  | some kind => .ok kind
  | none => .error (.notANodeField i.name field)

/-- Whether an edge stays when `field` of `source`, of the given kind, is connected to `target`. -/
def staysBeside (kind : FieldKind) (source : InstanceId) (field : String) (target : InstanceId)
    (e : Edge) : Bool :=
  e.target != target && !(kind == .singleNode && e.source == source && e.field == field)

/-- Connects a field of a node to another node. -/
def connect (g : Graph) (source : InstanceId) (field : String) (target : InstanceId) :
    Except Error Graph :=
  if g.contains target then do
    let kind ← g.nodeFieldKind source field
    return { g with
      edges := g.edges.filter (staysBeside kind source field target) ++ [⟨source, field, target⟩] }
  else .error (.unknownNode target)

/-- Removes an edge, and says whether it was there. -/
def disconnect (g : Graph) (source : InstanceId) (field : String) (target : InstanceId) :
    Bool × Graph :=
  let e : Edge := ⟨source, field, target⟩
  (g.edges.contains e, { g with edges := g.edges.filter (· != e) })

end Graph

end SyntaxGraph
