import SyntaxGraph.Schema.FieldUnit

/-!
# Templates

A template defines one kind of node: its name, the tree tags it stands for and its fields.
-/

namespace SyntaxGraph

/-- The definition of one kind of node. -/
structure Template where
  name : String
  base : Option String := none
  /-- Tags of the tree nodes that the template stands for. -/
  kinds : List String := []
  fields : List FieldUnit
  typeComment : Option String := none
  factoryComment : Option String := none
  skipConvenienceFactories : Bool := false
deriving DecidableEq, Repr, Inhabited

/-- For each token tag that a token field recognizes, the tag and the name of the field, in
declaration order. -/
def Template.tokenTags (t : Template) : List (String × String) :=
  (Units.tokenFields t.fields).flatMap fun spec => spec.kinds.map (·, spec.name)

end SyntaxGraph
