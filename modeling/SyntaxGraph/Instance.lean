import SyntaxGraph.Identity
import SyntaxGraph.Schema.Template

/-!
# Instances

An instance is one occurrence of a template: it has an id, and a forest of units that starts as the
template's and then takes texts and selections of its own.
-/

namespace SyntaxGraph

/-- One occurrence of a template. -/
structure Instance where
  id : InstanceId
  template : Template
  fields : List FieldUnit
deriving DecidableEq, Repr, Inhabited

namespace Instance

/-- A new instance of a template, with the next id. -/
def stamp (template : Template) (counter : Counter) : Instance × Counter :=
  (⟨counter.fresh.1, template, template.fields⟩, counter.fresh.2)

/-- The name of the template. -/
def name (i : Instance) : String :=
  i.template.name

/-- The instance in which every field called `field` has the text `value`. -/
def withValue (i : Instance) (field : String) (value : Option String) : Instance :=
  { i with fields := Units.withValue field value i.fields }

/-- The instance in which the choice at a path selects `index`, or `none` when the path does not
lead to a choice. -/
def withChoice? (i : Instance) (path : List Nat) (index : Nat) : Option Instance :=
  (Units.withChoice? i.fields index path).map fun us => { i with fields := us }

/-- The instance in which every choice called `name` selects `index`, except below such a choice. -/
def withNamedChoice (i : Instance) (name : String) (index : Nat) : Instance :=
  { i with fields := Units.withNamedChoice name index i.fields }

/-- The text of the field called `name`. -/
def value? (i : Instance) (name : String) : Option String :=
  Units.value? name i.fields

/-- The selected alternative of the choice at a path. -/
def selectedAt? (i : Instance) (path : List Nat) : Option Nat :=
  Units.selectedAt? i.fields path

/-- The fields that carry child nodes, in declaration order. -/
def nodeFields (i : Instance) : List FieldSpec :=
  Units.nodeFields i.fields

/-- Whether a field called `name` carries child nodes. -/
def hasNodeField (i : Instance) (name : String) : Bool :=
  i.nodeFields.any (·.name == name)

/-- The kind of the first field called `name` that carries child nodes. -/
def nodeFieldKind? (i : Instance) (name : String) : Option FieldKind :=
  (i.nodeFields.find? (·.name == name)).map (·.kind)

@[simp] theorem id_withValue (i : Instance) (f : String) (v : Option String) :
    (i.withValue f v).id = i.id := rfl

@[simp] theorem template_withValue (i : Instance) (f : String) (v : Option String) :
    (i.withValue f v).template = i.template := rfl

@[simp] theorem id_withNamedChoice (i : Instance) (n : String) (k : Nat) :
    (i.withNamedChoice n k).id = i.id := rfl

@[simp] theorem template_withNamedChoice (i : Instance) (n : String) (k : Nat) :
    (i.withNamedChoice n k).template = i.template := rfl

theorem id_of_withChoice? {i j : Instance} {path : List Nat} {k : Nat}
    (h : i.withChoice? path k = some j) : j.id = i.id := by
  obtain ⟨us, -, rfl⟩ := Option.map_eq_some_iff.1 h
  rfl

theorem template_of_withChoice? {i j : Instance} {path : List Nat} {k : Nat}
    (h : i.withChoice? path k = some j) : j.template = i.template := by
  obtain ⟨us, -, rfl⟩ := Option.map_eq_some_iff.1 h
  rfl

end Instance

end SyntaxGraph
