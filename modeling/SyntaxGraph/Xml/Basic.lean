/-!
# XML trees

An element keeps its local name, its attributes without a prefix and what stands inside it. Comments
and processing instructions leave no trace.
-/

namespace SyntaxGraph.Xml

/-- An element, or text inside an element. -/
inductive Node where
  | element (name : String) (attributes : List (String × String)) (content : List Node)
  | text (s : String)
deriving Repr, Inhabited

namespace Node

/-- The local name of an element. -/
def name : Node → String
  | .element n _ _ => n
  | .text _ => ""

/-- The value of an attribute without a prefix. -/
def attribute? (n : Node) (key : String) : Option String :=
  match n with
  | .element _ attributes _ => attributes.lookup key
  | .text _ => none

/-- What stands inside an element. -/
def content : Node → List Node
  | .element _ _ content => content
  | .text _ => []

/-- Whether the node is an element of the given local name. -/
def isNamed (key : String) : Node → Bool
  | .element n _ _ => n == key
  | .text _ => false

/-- The elements of the given local name directly inside an element. -/
def childrenNamed (n : Node) (key : String) : List Node :=
  n.content.filter (isNamed key)

/-- The first element of the given local name directly inside an element. -/
def childNamed? (n : Node) (key : String) : Option Node :=
  n.content.find? (isNamed key)

mutual

/-- All text inside a node, in order. -/
def innerText : Node → String
  | .element _ _ content => innerTexts content
  | .text s => s

/-- All text inside the nodes, in order. -/
def innerTexts : List Node → String
  | [] => ""
  | n :: ns => n.innerText ++ innerTexts ns

end

end Node

end SyntaxGraph.Xml
