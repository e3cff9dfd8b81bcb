/-!
# Kinds of fields

A schema declares each field with a type taken from the grammar. Conversion only asks what such a
field carries: text, one child node, or an ordered run of child nodes.
-/

namespace SyntaxGraph

/-- What a field carries. -/
inductive FieldKind where
  | token
  | tokenList
  | singleNode
  | nodeList
  | separatedNodeList
  | unknown
deriving DecidableEq, Repr, Inhabited

namespace FieldKind

/-- The kind of a declared type: two exact names, then two beginnings, then an ending. -/
def classify (declared : String) : FieldKind :=
  if declared = "SyntaxToken" then .token
  else if declared = "SyntaxList<SyntaxToken>" then .tokenList
  else if "SeparatedSyntaxList".toList.isPrefixOf declared.toList then .separatedNodeList
  else if "SyntaxList".toList.isPrefixOf declared.toList then .nodeList
  else if "Syntax".toList.isSuffixOf declared.toList then .singleNode
  else .unknown

/-- The field carries text. -/
def isToken : FieldKind → Bool
  | token | tokenList => true
  | _ => false

/-- The field carries child nodes. -/
def isNode : FieldKind → Bool
  | singleNode | nodeList | separatedNodeList => true
  | _ => false

/-- The field carries any number of child nodes. -/
def isList : FieldKind → Bool
  | nodeList | separatedNodeList => true
  | _ => false

/-- A separator stands between the child nodes of the field. -/
def needsSeparator : FieldKind → Bool
  | separatedNodeList => true
  | _ => false

theorem isToken_eq_false_of_isNode {k : FieldKind} (h : k.isNode = true) : k.isToken = false := by
  cases k <;> simp_all [isToken, isNode]

example : classify "SyntaxList<SyntaxToken>" = .tokenList := by decide
example : classify "SeparatedSyntaxList<ArgumentSyntax>" = .separatedNodeList := by decide
example : classify "ExpressionSyntax" = .singleNode := by decide
example : classify "" = .unknown := by decide

end FieldKind

end SyntaxGraph
