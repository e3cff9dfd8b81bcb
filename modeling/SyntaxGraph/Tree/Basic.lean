import SyntaxGraph.Table

/-!
# Concrete trees

A node of a concrete tree has a tag and named slots. A slot holds a token, a list of tokens, a node
or a list of nodes. The slots are kept in the order in which they were first set.
-/

namespace SyntaxGraph.Tree

/-- A token of a concrete tree. -/
structure Token where
  tag : String
  text : String := ""
  /-- Put in by error recovery; it carries no source text. -/
  missing : Bool := false
deriving DecidableEq, Repr, Inhabited

/-- The text of a token that is worth keeping: present and not empty. -/
def Token.usableText (t : Token) : Option String :=
  if t.missing || t.text.isEmpty then none else some t.text

mutual

/-- A node of a concrete tree. -/
inductive Node where
  | mk (tag : String) (fields : List (String × Slot))

/-- What a named field of a node holds. -/
inductive Slot where
  | token (token : Token)
  | tokens (tokens : List Token)
  | node (node : Node)
  | nodes (nodes : List Node)

end

deriving instance Repr for Node, Slot

namespace Slot

/-- The child nodes, in order. -/
def childNodes : Slot → List Node
  | .node n => [n]
  | .nodes ns => ns
  | .token _ => []
  | .tokens _ => []

/-- The child tokens, in order. -/
def childTokens : Slot → List Token
  | .token t => [t]
  | .tokens ts => ts
  | .node _ => []
  | .nodes _ => []

/-- The text that the tokens carry: the text of one token, or the usable texts of a list with single
spaces between them; `none` when nothing is usable. -/
def tokenText : Slot → Option String
  | .token t => t.usableText
  | .tokens ts =>
    let texts := ts.filterMap Token.usableText
    if texts.isEmpty then none else some (" ".intercalate texts)
  | .node _ => none
  | .nodes _ => none

end Slot

namespace Node

instance : Inhabited Node := ⟨.mk "" []⟩

/-- The tag of a node. -/
def tag : Node → String
  | .mk tag _ => tag

/-- The named slots, in order. -/
def fields : Node → List (String × Slot)
  | .mk _ fields => fields

/-- The slot of a name. -/
def field? (n : Node) (name : String) : Option Slot :=
  n.fields.lookup name

/-- The child nodes in the slot of a name. -/
def childrenOf (n : Node) (name : String) : List Node :=
  match n.field? name with
  | some slot => slot.childNodes
  | none => []

/-- The tags of the child nodes, in order. -/
def childNodeTags (n : Node) : List String :=
  n.fields.flatMap fun f => f.2.childNodes.map tag

/-- The tags of the child tokens, in order. -/
def childTokenTags (n : Node) : List String :=
  n.fields.flatMap fun f => f.2.childTokens.map (·.tag)

end Node

/-! ### Building -/

/-- The node with a slot set; a slot that is set again keeps its place. -/
def Node.withField (n : Node) (name : String) (slot : Slot) : Node :=
  .mk n.tag (Table.assign name slot n.fields)

/-! ### Equality up to the order of fields -/

mutual

/-- The nodes have the same tag and, up to order, the same slots. -/
def Node.same : Node → Node → Bool
  | .mk s fs, .mk t gs => s == t && fs.length == gs.length && sameFields fs gs

/-- The slots hold the same tokens or nodes. -/
def Slot.same : Slot → Slot → Bool
  | .token a, .token b => a == b
  | .tokens as, .tokens bs => as == bs
  | .node a, .node b => a.same b
  | .nodes as, .nodes bs => sameNodes as bs
  | _, _ => false

/-- Every slot on the left is the slot of its name on the right. -/
def sameFields : List (String × Slot) → List (String × Slot) → Bool
  | [], _ => true
  | (name, a) :: fs, gs =>
    (match gs.lookup name with
      | some b => a.same b
      | none => false) && sameFields fs gs

/-- The nodes are the same, one by one. -/
def sameNodes : List Node → List Node → Bool
  | [], [] => true
  | a :: as, b :: bs => a.same b && sameNodes as bs
  | _, _ => false

end

/-! ### Size -/

theorem Node.sizeOf_lt_of_mem_childrenOf {n c : Node} {name : String} (h : c ∈ n.childrenOf name) :
    sizeOf c < sizeOf n := by
  cases n with
  | mk tag fields =>
    simp only [childrenOf, field?, Node.fields] at h
    split at h
    case h_2 => simp at h
    case h_1 slot hs =>
      have hslot : sizeOf slot < sizeOf fields := by
        clear h
        induction fields with
        | nil => simp at hs
        | cons f fs ih =>
          obtain ⟨k, s⟩ := f
          rw [List.lookup_cons] at hs
          split at hs
          · simp only [Option.some.injEq] at hs
            subst hs
            simp only [List.cons.sizeOf_spec, Prod.mk.sizeOf_spec]
            omega
          · have := ih hs
            simp only [List.cons.sizeOf_spec]
            omega
      have hc : sizeOf c < sizeOf slot := by
        cases slot with
        | token t => simp [Slot.childNodes] at h
        | tokens ts => simp [Slot.childNodes] at h
        | node n =>
          simp only [Slot.childNodes, List.mem_singleton] at h
          subst h
          simp only [Slot.node.sizeOf_spec]
          omega
        | nodes ns =>
          have := List.sizeOf_lt_of_mem h
          simp only [Slot.nodes.sizeOf_spec, Slot.childNodes] at this ⊢
          omega
      simp only [Node.mk.sizeOf_spec]
      omega

end SyntaxGraph.Tree
