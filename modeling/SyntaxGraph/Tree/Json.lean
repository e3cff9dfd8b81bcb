import SyntaxGraph.Json.Reader
import SyntaxGraph.Json.Writer
import SyntaxGraph.Tree.Basic

/-!
# Trees as JSON

A node is written `{"tag": …, "fields": {name: slot, …}}`, without `fields` when it has none. A slot
is an object with one member that says what it holds: `token`, `tokens`, `node` or `nodes`. A token
is written with its tag and text, and with `missing` only when it is missing.

Reading accepts more than is written: a record may also be an array of its values, members that
have a default may be left out, and members of other names are passed over.
-/

namespace SyntaxGraph.Tree

/-- What is wrong with the text of a tree. -/
inductive ReadError where
  /-- The text is not the JSON of a tree. -/
  | malformed
  /-- The root has an empty tag. -/
  | emptyRootTag
deriving DecidableEq, Repr

/-- The message of an error. -/
def ReadError.message : ReadError → String
  | .malformed => "Tree JSON error: not the JSON of a tree"
  | .emptyRootTag => "Parse error: root node has an empty tag"

/-! ### Writing -/

/-- A token as JSON. -/
def Token.toJson (t : Token) : Json :=
  .ofMembers ([("tag", .ofString t.tag), ("text", .ofString t.text)] ++
    if t.missing then [("missing", .bool true)] else [])

mutual

/-- A node as JSON. -/
def Node.toJson : Node → Json
  | .mk tag [] => .ofMembers [("tag", .ofString tag)]
  | .mk tag (f :: fs) =>
    .ofMembers [("tag", .ofString tag), ("fields", .object (fieldsToJson (f :: fs)))]

/-- A slot as JSON. -/
def Slot.toJson : Slot → Json
  | .token t => .ofMembers [("token", t.toJson)]
  | .tokens ts => .ofMembers [("tokens", .array (ts.map Token.toJson))]
  | .node n => .ofMembers [("node", n.toJson)]
  | .nodes ns => .ofMembers [("nodes", .array (nodesToJson ns))]

/-- The fields of a node as members of an object. -/
def fieldsToJson : List (String × Slot) → List (Option String × Json)
  | [] => []
  | (name, slot) :: fs => (some name, slot.toJson) :: fieldsToJson fs

/-- Nodes as elements of an array. -/
def nodesToJson : List Node → List Json
  | [] => []
  | n :: ns => n.toJson :: nodesToJson ns

end

/-! ### Reading -/

/-- A token from JSON. -/
def Token.ofJson? (j : Json) : Option Token := do
  match ← j.record? ["tag", "text", "missing"] with
  | [tag, text, missing] =>
    return ⟨← Json.required? Json.toText? tag, ← Json.orElse? "" Json.toText? text,
      ← Json.orElse? false Json.toBool? missing⟩
  | _ => none

mutual

/-- A node from JSON. -/
def Node.ofJson? : Json → Option Node
  | .object ms =>
    match Json.record? ["tag", "fields"] (.object ms) with
    | some [some tag, _] => do return .mk (← tag.toText?) (← fieldsIn? ms)
    | _ => none
  | .array [tag] => do return .mk (← tag.toText?) []
  | .array [tag, fields] => do return .mk (← tag.toText?) (← fields?  fields)
  | _ => none

/-- The fields from the first member of a node that is called so. -/
def fieldsIn? : List (Option String × Json) → Option (List (String × Slot))
  | [] => some []
  | (k, j) :: ms => if k = some "fields" then fields? j else fieldsIn? ms

/-- The fields of a node from JSON. A name that is repeated keeps its first place and its last
slot. -/
def fields? : Json → Option (List (String × Slot))
  | .object ms => fieldMembers? [] ms
  | _ => none

/-- Reads fields on top of those read `before`. -/
def fieldMembers? (before : List (String × Slot)) :
    List (Option String × Json) → Option (List (String × Slot))
  | [] => some before
  | (none, _) :: _ => none
  | (some name, j) :: ms =>
    match Slot.ofJson? j with
    | some slot => fieldMembers? (Table.assign name slot before) ms
    | none => none

/-- A slot from JSON. -/
def Slot.ofJson? : Json → Option Slot
  | .object [(some kind, j)] =>
    if kind = "token" then (Token.ofJson? j).map .token
    else if kind = "tokens" then (j.toList? Token.ofJson?).map .tokens
    else if kind = "node" then (Node.ofJson? j).map .node
    else if kind = "nodes" then (nodes? j).map .nodes
    else none
  | _ => none

/-- A list of nodes from JSON. -/
def nodes? : Json → Option (List Node)
  | .array xs => nodeElements? xs
  | _ => none

/-- Nodes from the elements of an array. -/
def nodeElements? : List Json → Option (List Node)
  | [] => some []
  | x :: xs =>
    match Node.ofJson? x, nodeElements? xs with
    | some n, some ns => some (n :: ns)
    | _, _ => none

end

/-- Reads the text of a tree. -/
def parse (source : String) : Except ReadError Node :=
  let reading := Json.read source
  match Node.ofJson? reading.root with
  | some node =>
    if !reading.ended then .error .malformed
    else if node.tag.isEmpty then .error .emptyRootTag
    else .ok node
  | none => .error .malformed

end SyntaxGraph.Tree
