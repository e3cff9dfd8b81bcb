import SyntaxGraph.Conversion.Resolution

/-!
# Filling an instance from a tree node

The texts of the node's tokens go into the token fields of the same names, and every choice is
resolved from the tags of the node's direct children.
-/

namespace SyntaxGraph.Conversion

/-- Gives the field `name` the token text of the node's slot of that name, if there is one. -/
def fillField (node : Tree.Node) (i : Instance) (name : String) : Instance :=
  match (node.field? name).bind (·.tokenText) with
  | some text => i.withValue name (some text)
  | none => i

/-- The instance with the texts of the node's tokens. -/
def fillTexts (i : Instance) (node : Tree.Node) : Instance :=
  (Units.tokenFieldNames i.fields).foldl (fillField node) i

/-- The instance with the texts of the node's tokens and its choices resolved from the tags of the
node's direct children. -/
def fillValues (i : Instance) (node : Tree.Node) : Instance :=
  resolve (looksLike (.ofNode node)) (fillTexts i node)

@[simp] theorem id_fillField (node : Tree.Node) (i : Instance) (name : String) :
    (fillField node i name).id = i.id := by
  unfold fillField
  split <;> simp

@[simp] theorem id_fillTexts (i : Instance) (node : Tree.Node) : (fillTexts i node).id = i.id := by
  unfold fillTexts
  induction Units.tokenFieldNames i.fields generalizing i with
  | nil => rfl
  | cons n ns ih => rw [List.foldl_cons, ih, id_fillField]

@[simp] theorem id_fillValues (i : Instance) (node : Tree.Node) :
    (fillValues i node).id = i.id := by
  simp [fillValues]

end SyntaxGraph.Conversion
