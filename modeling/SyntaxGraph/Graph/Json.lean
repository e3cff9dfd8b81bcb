import SyntaxGraph.Graph.Edit
import SyntaxGraph.Schema.Json

/-!
# Graphs as JSON

A graph is a record of nodes and edges. Loading one reserves its ids, so that new nodes never get
them: the id of an instance as soon as the instance is read, and those of the nodes one after the
other once the whole text is read. What was reserved before an error stays reserved.

Reading does not depend on what keeps the reserved ids: it only asks for a register of them, which a
counter is.
-/

namespace SyntaxGraph

/-! ### Writing -/

/-- An id as JSON. -/
def InstanceId.toJson (id : InstanceId) : Json :=
  .ofNat id.number.toNat

/-- An instance as JSON. -/
def Instance.toJson (i : Instance) : Json :=
  .ofMembers [("id", i.id.toJson), ("template", i.template.toJson),
    ("fields", .array (Units.toJson i.fields))]

/-- A node as JSON. -/
def GraphNode.toJson (n : GraphNode) : Json :=
  .ofMembers ([("id", n.id.toJson)] ++
    match n.state with
    | some i => [("instance", i.toJson)]
    | none => [])

/-- An edge as JSON. -/
def Edge.toJson (e : Edge) : Json :=
  .ofMembers [("source", e.source.toJson), ("field", .ofString e.field),
    ("target", e.target.toJson)]

/-- A graph as JSON. -/
def Graph.toJson (g : Graph) : Json :=
  .ofMembers [("nodes", .array (g.nodes.map GraphNode.toJson)),
    ("edges", .array (g.edges.map Edge.toJson))]

/-- The text of a graph. -/
def Graph.text (g : Graph) : String :=
  g.toJson.pretty

/-! ### Reading -/

/-- The number of arrays and objects that may stand inside one another. -/
def Graph.nestingLimit : Nat := 127

/-- An id from JSON, a number of 64 bits. -/
def InstanceId.ofJson? (j : Json) : Option InstanceId :=
  (j.toNatBelow? UInt64.size).map fun n => ⟨UInt64.ofNat n⟩

/-- An edge from JSON. -/
def Edge.ofJson? (j : Json) : Option Edge := do
  match ← j.record? ["source", "field", "target"] with
  | [source, field, target] =>
    return ⟨← Json.required? InstanceId.ofJson? source, ← Json.required? Json.toText? field,
      ← Json.required? InstanceId.ofJson? target⟩
  | _ => none

/-- The parts of an instance from JSON, in which at most `room` arrays and objects may stand inside
one another. -/
def Instance.ofJson? (room : Nat) (j : Json) : Option Instance := do
  match ← j.record? ["id", "template", "fields"] with
  | [id, template, fields] =>
    return ⟨← Json.required? InstanceId.ofJson? id,
      ← Json.required? (Template.ofJson? (room - 1)) template,
      ← Json.required? (Units.ofJson? (room - 1)) fields⟩
  | _ => none

/-- What keeps the ids that are reserved. -/
class IdRegister (σ : Type) where
  /-- The register with one more id, or `none` when the id is out of range. -/
  reserve? : σ → InstanceId → Option σ

instance : IdRegister Counter where
  reserve? := Counter.reserve?

/-- A step of loading: it may fail, and in any case answers the register it leaves. -/
abbrev Load (σ : Type) := ExceptT Graph.JsonFault (StateM σ)

namespace Load

variable {σ : Type} [IdRegister σ]

/-- What must be there in a well-formed text. -/
def expect (a : Option α) : Load σ α :=
  match a with
  | some a => pure a
  | none => throw .malformed

/-- Reads an instance and reserves its id. -/
def loadInstance (room : Nat) (j : Json) : Load σ Instance := do
  let i ← expect (Instance.ofJson? room j)
  match IdRegister.reserve? (← get) i.id with
  | some register => set register; return i
  | none => throw (.instanceOutOfRange i.id)

/-- Reads an instance that may be `null`. -/
def loadState (room : Nat) : Json → Load σ (Option Instance)
  | .null => return none
  | j => some <$> loadInstance room j

/-- The members of a node that were read so far. -/
structure NodeParts where
  id : Option InstanceId := none
  state : Option (Option Instance) := none

/-- Reads the members of a node one by one. -/
def loadNodeMembers (room : Nat) (parts : NodeParts) :
    List (Option String × Json) → Load σ GraphNode
  | [] => do return ⟨← expect parts.id, parts.state.getD none⟩
  | (none, _) :: _ => throw .malformed
  | (some key, j) :: ms => do
    if key = "id" then
      if parts.id.isSome then throw .malformed
      else
        let id ← expect (InstanceId.ofJson? j)
        loadNodeMembers room { parts with id := some id } ms
    else if key = "instance" then
      if parts.state.isSome then throw .malformed
      else
        let state ← loadState room j
        loadNodeMembers room { parts with state := some state } ms
    else if j.isWhole then loadNodeMembers room parts ms
    else throw .malformed

/-- Reads a node. -/
def loadNode (room : Nat) : Json → Load σ GraphNode
  | .object ms => loadNodeMembers (room - 1) {} ms
  | .array [id] => do return ⟨← expect (InstanceId.ofJson? id), none⟩
  | .array (id :: state :: rest) => do
    let id ← expect (InstanceId.ofJson? id)
    let state ← loadState (room - 1) state
    if rest.isEmpty then return ⟨id, state⟩ else throw .malformed
  | _ => throw .malformed

/-- Reads a list of nodes. -/
def loadNodes (room : Nat) : Json → Load σ (List GraphNode)
  | .array xs => xs.mapM (loadNode (room - 1))
  | _ => throw .malformed

/-- The members of a graph that were read so far. -/
structure GraphParts where
  nodes : Option (List GraphNode) := none
  edges : Option (List Edge) := none

/-- Reads the members of a graph one by one. -/
def loadGraphMembers (room : Nat) (parts : GraphParts) :
    List (Option String × Json) → Load σ Graph
  | [] => do return ⟨← expect parts.nodes, parts.edges.getD []⟩
  | (none, _) :: _ => throw .malformed
  | (some key, j) :: ms => do
    if key = "nodes" then
      if parts.nodes.isSome then throw .malformed
      else
        let nodes ← loadNodes room j
        loadGraphMembers room { parts with nodes := some nodes } ms
    else if key = "edges" then
      if parts.edges.isSome then throw .malformed
      else
        let edges ← expect (j.toList? Edge.ofJson?)
        loadGraphMembers room { parts with edges := some edges } ms
    else if j.isWhole then loadGraphMembers room parts ms
    else throw .malformed

/-- Reads the nodes and edges of a graph, which are not checked against each other. -/
def loadDocument (room : Nat) : Json → Load σ Graph
  | .object ms => loadGraphMembers (room - 1) {} ms
  | .array [nodes] => do return ⟨← loadNodes (room - 1) nodes, []⟩
  | .array (nodes :: edges :: rest) => do
    let nodes ← loadNodes (room - 1) nodes
    let edges ← expect (edges.toList? Edge.ofJson?)
    if rest.isEmpty then return ⟨nodes, edges⟩ else throw .malformed
  | _ => throw .malformed

/-- Reads a whole text. -/
def loadText (load : Json → Load σ α) (source : String) : Load σ α := do
  let reading := Json.read source
  let a ← load reading.root
  if reading.ended then return a else throw .malformed

end Load

namespace Graph

section Register

variable {σ : Type} [IdRegister σ]

/-- Checks the nodes one by one against those `before` and reserves their ids. -/
def acceptNodes (before : List GraphNode) (register : σ) :
    List GraphNode → Except Error (List GraphNode) × σ
  | [] => (.ok before, register)
  | n :: ns =>
    match n.state.filter (·.id != n.id) with
    | some i => (.error (.json (.foreignState n.id i.id)), register)
    | none =>
      match IdRegister.reserve? register n.id with
      | none => (.error (.idOutOfRange n.id), register)
      | some register =>
        if before.any (·.id == n.id) then (.error (.json .duplicateNode), register)
        else acceptNodes (before ++ [n]) register ns

/-- The first end of an edge that is not the id of a node. -/
def strayEnd? (g : Graph) : Option InstanceId :=
  (g.edges.flatMap fun e => [e.source, e.target]).find? (!g.contains ·)

/-- Checks the nodes and edges of a document against each other and reserves the ids of the nodes. -/
def ofDocument (document : Graph) (register : σ) : Except Error Graph × σ :=
  match acceptNodes [] register document.nodes with
  | (.error e, register) => (.error e, register)
  | (.ok nodes, register) =>
    let g : Graph := ⟨nodes, document.edges⟩
    match g.strayEnd? with
    | some id => (.error (.unknownNode id), register)
    | none => (.ok g, register)

/-- Loads the text of a graph; the ids that it reserves go into a register. -/
def loadInto (source : String) (register : σ) : Except Error Graph × σ :=
  match (Load.loadText (Load.loadDocument nestingLimit) source).run register with
  | (.error fault, register) => (.error (.json fault), register)
  | (.ok document, register) => ofDocument document register

end Register

/-- Loads the text of a graph. -/
def load (source : String) (counter : Counter) : Except Error Graph × Counter :=
  loadInto source counter

end Graph

namespace Instance

/-- Loads the text of an instance; the id that it reserves goes into a register. -/
def loadInto {σ : Type} [IdRegister σ] (source : String) (register : σ) :
    Except Graph.JsonFault Instance × σ :=
  (Load.loadText (Load.loadInstance Graph.nestingLimit) source).run register

/-- Loads the text of an instance. -/
def load (source : String) (counter : Counter) : Except Graph.JsonFault Instance × Counter :=
  loadInto source counter

end Instance

end SyntaxGraph
