import SyntaxGraph.Schema.Document
import SyntaxGraph.Text.Blank
import SyntaxGraph.Xml.Reader

/-!
# Reading schema documents

The root element is `Tree`. Its children `PredefinedNode`, `AbstractNode` and `Node` are read in
order; inside the last two, `Field`, `Choice` and `Sequence` elements form the forest of units.
Other elements are passed over. Reading stops at the first error.
-/

namespace SyntaxGraph.Schema

/-- An attribute that must be there. -/
def requiredAttribute (n : Xml.Node) (element key : String) : Except Error String :=
  match n.attribute? key with
  | some value => .ok value
  | none => .error (.missingAttribute element key)

/-- A truth value: `true` or `false` in any case, with blanks around it, and `false` when absent. -/
def boolAttribute (n : Xml.Node) (key : String) : Except Error Bool :=
  match n.attribute? key with
  | none => .ok false
  | some raw =>
    let word := (Text.trimChars raw.toList).map Char.toLower
    if word = "true".toList then .ok true
    else if word = "false".toList then .ok false
    else .error (.invalidAttribute n.name key raw)

/-- A number of 32 bits: an optional plus sign and decimal digits. -/
def parseCount? (cs : List Char) : Option UInt32 :=
  let digits := match cs with
    | '+' :: r => r
    | r => r
  if digits.isEmpty || !digits.all Char.isDigit then none
  else
    let n := digits.foldl (fun n d => n * 10 + (d.toNat - '0'.toNat)) 0
    if n < UInt32.size then some (UInt32.ofNat n) else none

/-- The least number of children, zero when absent. -/
def countAttribute (n : Xml.Node) (key : String) : Except Error UInt32 :=
  match n.attribute? key with
  | none => .ok 0
  | some raw =>
    match parseCount? (Text.trimChars raw.toList) with
    | some count => .ok count
    | none => .error (.invalidAttribute n.name key raw)

/-- The names of the `Kind` elements. -/
def kindNames (n : Xml.Node) : List String :=
  (n.childrenNamed "Kind").filterMap (·.attribute? "Name")

/-- The text of the summary in the first element called `container`, unless it is blank. -/
def summary? (n : Xml.Node) (container : String) : Option String := do
  let summary ← (← n.childNamed? container).childNamed? "summary"
  let text := Text.trim summary.innerText
  if text.isEmpty then none else some text

/-- A single field. -/
def readField (n : Xml.Node) : Except Error FieldUnit := do
  let minCount ← countAttribute n "MinCount"
  let name ← requiredAttribute n "Field" "Name"
  let optional ← boolAttribute n "Optional"
  let overrides ← boolAttribute n "Override"
  let trailing ← boolAttribute n "AllowTrailingSeparator"
  return .ofSpec {
    name, optional, overrides, minCount
    declaredType := (n.attribute? "Type").getD ""
    allowTrailingSeparator := trailing
    kinds := kindNames n
    comment := summary? n "PropertyComment" }

mutual

/-- The unit that an element declares, if it declares one. -/
def readUnit : Xml.Node → Except Error (Option FieldUnit)
  | .text _ => .ok none
  | .element name attributes content =>
    let self := Xml.Node.element name attributes content
    if name = "Field" then (readField self).map some
    else if name = "Choice" then do
      let children ← readUnits content
      let optional ← boolAttribute self "Optional"
      return some (.choice (self.attribute? "Name") optional children 0)
    else if name = "Sequence" then do
      return some (.sequence (← readUnits content))
    else .ok none

/-- The units that the content of an element declares. -/
def readUnits : List Xml.Node → Except Error (List FieldUnit)
  | [] => .ok []
  | n :: ns => do
    let unit ← readUnit n
    let units ← readUnits ns
    return unit.toList ++ units

end

/-- A concrete kind of node. -/
def readTemplate (n : Xml.Node) : Except Error Template := do
  let name ← requiredAttribute n "Node" "Name"
  let fields ← readUnits n.content
  let skip ← boolAttribute n "SkipConvenienceFactories"
  return {
    name, fields
    base := n.attribute? "Base"
    kinds := kindNames n
    typeComment := summary? n "TypeComment"
    factoryComment := summary? n "FactoryComment"
    skipConvenienceFactories := skip }

/-- An abstract kind of node. -/
def readAbstractNode (n : Xml.Node) : Except Error AbstractNode := do
  let name ← requiredAttribute n "AbstractNode" "Name"
  let fields ← readUnits n.content
  return { name, fields, base := n.attribute? "Base", typeComment := summary? n "TypeComment" }

/-- A predefined kind of node. -/
def readPredefinedNode (n : Xml.Node) : Except Error PredefinedNode := do
  return ⟨← requiredAttribute n "PredefinedNode" "Name", n.attribute? "Base"⟩

namespace Document

/-- Adds what a child of the root declares. -/
def addDeclaration (doc : Document) (n : Xml.Node) : Except Error Document :=
  if n.isNamed "PredefinedNode" then
    (readPredefinedNode n).map fun p => { doc with predefined := doc.predefined ++ [p] }
  else if n.isNamed "AbstractNode" then
    (readAbstractNode n).map fun a => { doc with abstractNodes := doc.abstractNodes ++ [a] }
  else if n.isNamed "Node" then
    (readTemplate n).map fun t => { doc with nodes := doc.nodes ++ [t] }
  else .ok doc

/-- The schema that the root element declares. -/
def ofXml (root : Xml.Node) : Except Error Document :=
  if root.name = "Tree" then
    root.content.foldlM addDeclaration { root := root.attribute? "Root" }
  else .error (.unexpectedRoot root.name)

/-- Reads the text of a schema document. -/
def parse (source : String) : Except Error Document :=
  match Xml.read? source with
  | some root => ofXml root
  | none => .error .malformed

end Document

end SyntaxGraph.Schema
