import SyntaxGraph.Instance
import SyntaxGraph.Tree.Basic

/-!
# Resolving choices

Which alternative of a choice a tree node realizes is decided twice. First, from the tags of the
node's direct children, an alternative is taken when they speak for it and not against it. Later,
when the children are converted, from the fields that have children. In both rounds a choice takes
its first alternative that is accepted, and keeps its selection when none is.
-/

namespace SyntaxGraph.Conversion

/-! ### What the tags of the children say -/

/-- The tags of the direct children of a node. -/
structure ChildTags where
  nodes : List String
  tokens : List String

/-- The tags of the direct children of a tree node. -/
def ChildTags.ofNode (n : Tree.Node) : ChildTags :=
  ⟨n.childNodeTags, n.childTokenTags⟩

/-- Whether a field that is declared with `kinds` is seen among `tags`. -/
def seenAmong (kinds tags : List String) : Bool :=
  kinds.any tags.contains

/-- What the tags say of a single field: `none` when they say nothing. A token field without kinds
and a field of unknown kind are never decided; an optional field may be absent, so only its
presence counts. -/
def fieldEvidence (tags : ChildTags) (f : FieldSpec) : Option Bool :=
  let kind := f.kind
  if kind.isToken && f.kinds.isEmpty then none
  else if kind.isToken || kind.isNode then
    let seen :=
      if kind.isToken then seenAmong f.kinds tags.tokens
      else if f.kinds.isEmpty then !tags.nodes.isEmpty
      else seenAmong f.kinds tags.nodes
    if seen || !f.optional then some seen else none
  else none

mutual

/-- What the tags say of a unit: `none` when they say nothing either way. A sequence needs all of its
decided members, a choice one. -/
def evidence (tags : ChildTags) : FieldUnit → Option Bool
  | .single f _ => fieldEvidence tags f
  | .sequence cs =>
    let decided := decisionsOf tags cs
    if decided.isEmpty then none else some (decided.all id)
  | .choice _ _ cs _ =>
    let decided := decisionsOf tags cs
    if decided.isEmpty then none else some (decided.any id)

/-- The answers for the units of which the tags say something. -/
def decisionsOf (tags : ChildTags) : List FieldUnit → List Bool
  | [] => []
  | u :: us => (evidence tags u).toList ++ decisionsOf tags us

end

/-- The tags speak for an alternative. -/
def looksLike (tags : ChildTags) (alternative : FieldUnit) : Bool :=
  evidence tags alternative == some true

/-! ### What the converted children say -/

/-- An alternative has, at any depth, a field with converted children. -/
def isRealized (fields : List String) (alternative : FieldUnit) : Bool :=
  (Units.nodeFields [alternative]).any fun f => fields.contains f.name

/-! ### Decisions -/

mutual

/-- For every choice of a unit at `path`, the outer before the inner: its path and its first accepted
alternative, if it has one. -/
def unitDecisions (accept : FieldUnit → Bool) (path : List Nat) :
    FieldUnit → List (List Nat × Nat)
  | .single .. => []
  | .choice _ _ cs _ =>
    ((cs.findIdx? accept).map (path, ·)).toList ++ decisionsFrom accept path 0 cs
  | .sequence cs => decisionsFrom accept path 0 cs

/-- The decisions for the units at the positions from `i` on below `path`. -/
def decisionsFrom (accept : FieldUnit → Bool) (path : List Nat) (i : Nat) :
    List FieldUnit → List (List Nat × Nat)
  | [] => []
  | u :: us => unitDecisions accept (path ++ [i]) u ++ decisionsFrom accept path (i + 1) us

end

/-- For every choice of a forest with an accepted alternative: its path and the first one. -/
def decisions (accept : FieldUnit → Bool) (us : List FieldUnit) : List (List Nat × Nat) :=
  decisionsFrom accept [] 0 us

/-- The instance after a decision; a path that leads to no choice changes nothing. -/
def applyDecision (i : Instance) (d : List Nat × Nat) : Instance :=
  (i.withChoice? d.1 d.2).getD i

/-- The instance in which every choice takes its first accepted alternative. -/
def resolve (accept : FieldUnit → Bool) (i : Instance) : Instance :=
  (decisions accept i.fields).foldl applyDecision i

@[simp] theorem id_applyDecision (i : Instance) (d : List Nat × Nat) :
    (applyDecision i d).id = i.id := by
  unfold applyDecision
  cases h : i.withChoice? d.1 d.2 with
  | none => rfl
  | some j => exact Instance.id_of_withChoice? h

@[simp] theorem template_applyDecision (i : Instance) (d : List Nat × Nat) :
    (applyDecision i d).template = i.template := by
  unfold applyDecision
  cases h : i.withChoice? d.1 d.2 with
  | none => rfl
  | some j => exact Instance.template_of_withChoice? h

@[simp] theorem id_resolve (accept : FieldUnit → Bool) (i : Instance) :
    (resolve accept i).id = i.id := by
  unfold resolve
  induction decisions accept i.fields generalizing i with
  | nil => rfl
  | cons d ds ih => rw [List.foldl_cons, ih, id_applyDecision]

@[simp] theorem template_resolve (accept : FieldUnit → Bool) (i : Instance) :
    (resolve accept i).template = i.template := by
  unfold resolve
  induction decisions accept i.fields generalizing i with
  | nil => rfl
  | cons d ds ih => rw [List.foldl_cons, ih, template_applyDecision]

end SyntaxGraph.Conversion
