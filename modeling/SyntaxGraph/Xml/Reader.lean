import SyntaxGraph.Xml.Basic
import SyntaxGraph.Xml.Markup

/-!
# Reading XML

Tags are matched and prefixes resolved. A document has exactly one root element, a closing tag
closes the element opened last, every prefix is declared, and no element has two attributes of one
expanded name.
-/

namespace SyntaxGraph.Xml

/-- The namespace that the prefix `xml` stands for. -/
def xmlNamespace : String := "http://www.w3.org/XML/1998/namespace"

/-- The namespace of declarations, which cannot be declared. -/
def declarationNamespace : String := "http://www.w3.org/2000/xmlns/"

/-- Prefixes and the namespaces they stand for, the innermost first. -/
abbrev Scope := List (String × String)

/-- The scope of the whole document. -/
def outerScope : Scope := [("xml", xmlNamespace)]

/-- The prefixes that the attributes of one tag declare; `own` holds those declared before. -/
def declared? (own : Scope) : List Attribute → Option Scope
  | [] => some own
  | a :: as =>
    if a.name.qualifier = "xmlns" then
      if a.value = declarationNamespace then none
      else if (a.name.base = "xml") != (a.value = xmlNamespace) then none
      else if (own.lookup a.name.base).isSome then none
      else if a.value = xmlNamespace then declared? own as
      else declared? ((a.name.base, a.value) :: own) as
    else if a.name.base = "xmlns" then
      if a.value = xmlNamespace || a.value = declarationNamespace then none else declared? own as
    else declared? own as

/-- An attribute that declares a prefix or the default namespace. -/
def isDeclaration (a : Attribute) : Bool :=
  a.name.qualifier == "xmlns" || a.name.base == "xmlns"

/-- The namespace of an attribute; one without a prefix has none. -/
def attributeNamespace? (scope : Scope) (a : Attribute) : Option (Option String) :=
  if a.name.qualifier.isEmpty then some none
  else (scope.lookup a.name.qualifier).map some

/-- No two attributes have the same namespace and local name. -/
def distinct : List (Option String × String) → Bool
  | [] => true
  | n :: ns => !ns.contains n && distinct ns

/-- The scope inside a tag and its attributes without a prefix, if all its prefixes are declared and
its attributes differ. -/
def resolve? (scope : Scope) (name : QName) (attributes : List Attribute) :
    Option (Scope × List (String × String)) := do
  let own ← declared? [] attributes
  let scope := own ++ scope
  let plain := attributes.filter (!isDeclaration ·)
  let expanded ← plain.mapM fun a => (attributeNamespace? scope a).map (·, a.name.base)
  if name.qualifier = "xmlns" then none
  else if !name.qualifier.isEmpty && (scope.lookup name.qualifier).isNone then none
  else if !distinct expanded then none
  else return (scope, (plain.filter (·.name.qualifier.isEmpty)).map fun a => (a.name.base, a.value))

/-- An element whose closing tag is still to come; its content stands in reverse. -/
structure OpenElement where
  name : QName
  attributes : List (String × String)
  scope : Scope
  content : List Node

/-- The state of the reader: the open elements, innermost first, and the root once it is closed. -/
structure State where
  unclosed : List OpenElement
  root : Option Node

namespace State

/-- Adds a complete node to the innermost open element; without one it is the root. -/
def add? (s : State) (n : Node) : Option State :=
  match s.unclosed with
  | e :: es => some { s with unclosed := { e with content := n :: e.content } :: es }
  | [] => if s.root.isNone then some ⟨[], some n⟩ else none

/-- The scope at the current place. -/
def scope (s : State) : Scope :=
  match s.unclosed with
  | e :: _ => e.scope
  | [] => outerScope

/-- Takes one tag or text. Outside the root only white space may stand. -/
def step? (s : State) : Markup → Option State
  | .opening name attributes isEmpty => do
    let (scope, plain) ← resolve? s.scope name attributes
    if s.unclosed.isEmpty && s.root.isSome then none
    else if isEmpty then s.add? (.element name.base plain [])
    else return { s with unclosed := ⟨name, plain, scope, []⟩ :: s.unclosed }
  | .closing name =>
    match s.unclosed with
    | e :: es =>
      if e.name = name then
        { s with unclosed := es }.add? (.element e.name.base e.attributes e.content.reverse)
      else none
    | [] => none
  | .text raw =>
    if s.unclosed.isEmpty then (if raw.all isSpace then some s else none)
    else do
      let ls ← letters? raw.length raw
      s.add? (.text (String.ofList (runText [] ls)))
  | .literalText raw =>
    if s.unclosed.isEmpty then none
    else s.add? (.text (String.ofList (runText [] (raw.map .literal))))

end State

/-- The root element of a document, or `none` when the text is no document. -/
def read? (source : String) : Option Node := do
  let markup ← documentMarkup? source.toList
  let final ← markup.foldlM State.step? ⟨[], none⟩
  if final.unclosed.isEmpty then final.root else none

end SyntaxGraph.Xml
