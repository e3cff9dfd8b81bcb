import SyntaxGraph.Schema.Template

/-!
# Schema documents

A schema document declares predefined, abstract and concrete kinds of nodes. Each may name the kind
it is based on; the chain of these names ends where a kind has no base or one met before, so it is
finite also when the names go in a circle.
-/

namespace SyntaxGraph.Schema

/-- A kind of node that is only named. -/
structure PredefinedNode where
  name : String
  base : Option String
deriving DecidableEq, Repr, Inhabited

/-- A kind of node that other kinds are based on. -/
structure AbstractNode where
  name : String
  base : Option String
  fields : List FieldUnit
  typeComment : Option String
deriving DecidableEq, Repr, Inhabited

/-- What a schema declares, in order. -/
structure Document where
  root : Option String := none
  predefined : List PredefinedNode := []
  abstractNodes : List AbstractNode := []
  nodes : List Template := []
deriving DecidableEq, Repr, Inhabited

/-- What is wrong with a schema. -/
inductive Error where
  /-- The text is no XML document. -/
  | malformed
  | unexpectedRoot (name : String)
  | missingAttribute (element key : String)
  | invalidAttribute (element key value : String)
  /-- The schema could not be fetched. -/
  | load (reason : String)
deriving DecidableEq, Repr, Inhabited

/-- The message of an error. -/
def Error.message : Error → String
  | .malformed => "XML parsing error: not a well-formed document"
  | .unexpectedRoot name => "Root element is <" ++ name ++ ">, expected <Tree>"
  | .missingAttribute element key =>
    "<" ++ element ++ "> is missing required attribute '" ++ key ++ "'"
  | .invalidAttribute element key value =>
    "Invalid value '" ++ value ++ "' for attribute '" ++ key ++ "' on <" ++ element ++ ">"
  | .load reason => "Schema loader failed: " ++ reason

namespace Document

/-- The first abstract node of a name. -/
def abstractNode? (doc : Document) (name : String) : Option AbstractNode :=
  doc.abstractNodes.find? (·.name == name)

/-- The base of a kind of node: that of the first concrete node of the name, or else of the first
abstract one, or else of the first predefined one. -/
def baseOf? (doc : Document) (name : String) : Option String :=
  ((doc.nodes.find? (·.name == name)).bind (·.base)).or
    (((doc.abstractNode? name).bind (·.base)).or
      ((doc.predefined.find? (·.name == name)).bind (·.base)))

/-- All names that are declared as a base. -/
def bases (doc : Document) : List String :=
  doc.nodes.filterMap (·.base) ++ doc.abstractNodes.filterMap (·.base) ++
    doc.predefined.filterMap (·.base)

theorem mem_bases_of_baseOf? {doc : Document} {name b : String} (h : doc.baseOf? name = some b) :
    b ∈ doc.bases := by
  simp only [baseOf?, abstractNode?, Option.or_eq_some_iff, Option.bind_eq_some_iff] at h
  simp only [bases, List.mem_append, List.mem_filterMap]
  rcases h with ⟨n, hn, hb⟩ | ⟨-, ⟨n, hn, hb⟩ | ⟨-, n, hn, hb⟩⟩
  · exact .inl (.inl ⟨n, List.mem_of_find?_eq_some hn, hb⟩)
  · exact .inl (.inr ⟨n, List.mem_of_find?_eq_some hn, hb⟩)
  · exact .inr ⟨n, List.mem_of_find?_eq_some hn, hb⟩

theorem length_filter_lt_of_mem {xs chain : List String} {b : String} (hb : b ∈ xs)
    (hc : b ∉ chain) :
    (xs.filter (· ∉ chain ++ [b])).length < (xs.filter (· ∉ chain)).length := by
  induction xs with
  | nil => simp at hb
  | cons x xs ih =>
    have hle : (xs.filter (· ∉ chain ++ [b])).length ≤ (xs.filter (· ∉ chain)).length := by
      rw [← List.countP_eq_length_filter, ← List.countP_eq_length_filter]
      exact List.countP_mono_left fun y _ hy => by simp_all
    by_cases hx : x = b
    · subst hx
      rw [List.filter_cons_of_neg (by simp), List.filter_cons_of_pos (by simpa using hc)]
      simp only [List.length_cons]
      omega
    · have ih := ih (by simpa [Ne.symm hx] using hb)
      by_cases hxc : x ∈ chain
      · rw [List.filter_cons_of_neg (by simp [hxc]), List.filter_cons_of_neg (by simp [hxc])]
        exact ih
      · rw [List.filter_cons_of_pos (by simp [hxc, hx]), List.filter_cons_of_pos (by simp [hxc])]
        simp only [List.length_cons]
        omega

/-- The chain of bases from `name` on, after those in `chain`. -/
def ancestorsFrom (doc : Document) (chain : List String) (name : String) : List String :=
  match h : doc.baseOf? name with
  | none => chain
  | some b =>
    if hb : b ∈ chain then chain
    else
      have := length_filter_lt_of_mem (mem_bases_of_baseOf? h) hb
      ancestorsFrom doc (chain ++ [b]) b
termination_by (doc.bases.filter (· ∉ chain)).length
decreasing_by assumption

/-- The chain of bases of a kind of node, the nearest first. -/
def ancestors (doc : Document) (name : String) : List String :=
  doc.ancestorsFrom [] name

end Document

end SyntaxGraph.Schema
