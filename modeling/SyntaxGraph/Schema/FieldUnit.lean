import SyntaxGraph.Schema.FieldKind

/-!
# Field units

The fields of a node form a forest of units: a single field, a choice of which one alternative is
selected, or a sequence. Templates and instances share the shape of the forest; an instance also
carries the texts of its fields and the selected alternatives.

A path addresses a unit by one index per level, the first of them in the top list.
-/

namespace SyntaxGraph

/-- What the schema says of a single field. -/
structure FieldSpec where
  name : String
  declaredType : String
  optional : Bool := false
  overrides : Bool := false
  minCount : UInt32 := 0
  allowTrailingSeparator : Bool := false
  /-- Tags of the tokens or nodes that the field recognizes. -/
  kinds : List String := []
  comment : Option String := none
deriving DecidableEq, Repr, Inhabited

/-- What the field carries. -/
def FieldSpec.kind (spec : FieldSpec) : FieldKind :=
  FieldKind.classify spec.declaredType

/-- One structural unit of a list of fields. -/
inductive FieldUnit where
  | single (field : FieldSpec) (value : Option String)
  | choice (name : Option String) (optional : Bool) (children : List FieldUnit) (selected : Nat)
  | sequence (children : List FieldUnit)
deriving Repr, Inhabited

/-- A forest of units. -/
abbrev Units := List FieldUnit

/-! ### Equality is decidable -/

mutual

/-- Decides whether two units are equal. -/
def FieldUnit.decEq : (a b : FieldUnit) → Decidable (a = b)
  | .single f v, .single g w =>
    if h : f = g ∧ v = w then isTrue (by rw [h.1, h.2])
    else isFalse fun e => h (by injection e with e₁ e₂; exact ⟨e₁, e₂⟩)
  | .choice n o cs i, .choice m p ds j =>
    match Units.decEq cs ds with
    | isTrue hc =>
      if h : n = m ∧ o = p ∧ i = j then isTrue (by rw [h.1, h.2.1, h.2.2, hc])
      else isFalse fun e => h (by injection e with e₁ e₂ _ e₄; exact ⟨e₁, e₂, e₄⟩)
    | isFalse hc => isFalse fun e => hc (by injection e)
  | .sequence cs, .sequence ds =>
    match Units.decEq cs ds with
    | isTrue hc => isTrue (by rw [hc])
    | isFalse hc => isFalse fun e => hc (by injection e)
  | .single .., .choice .. => isFalse nofun
  | .single .., .sequence .. => isFalse nofun
  | .choice .., .single .. => isFalse nofun
  | .choice .., .sequence .. => isFalse nofun
  | .sequence .., .single .. => isFalse nofun
  | .sequence .., .choice .. => isFalse nofun

/-- Decides whether two forests are equal. -/
def Units.decEq : (as bs : List FieldUnit) → Decidable (as = bs)
  | [], [] => isTrue rfl
  | a :: as, b :: bs =>
    match FieldUnit.decEq a b, Units.decEq as bs with
    | isTrue h, isTrue hs => isTrue (by rw [h, hs])
    | isFalse h, _ => isFalse fun e => h (by injection e)
    | _, isFalse hs => isFalse fun e => hs (by injection e)
  | [], _ :: _ => isFalse nofun
  | _ :: _, [] => isFalse nofun

end

instance : DecidableEq FieldUnit := FieldUnit.decEq

namespace FieldUnit

/-- A field without a text. -/
def ofSpec (spec : FieldSpec) : FieldUnit :=
  .single spec none

/-- The units below a choice or a sequence; a single field has none. -/
def children : FieldUnit → List FieldUnit
  | .single .. => []
  | .choice _ _ cs _ => cs
  | .sequence cs => cs

/-- The unit with other units below it; a single field stays as it is. -/
def withChildren : FieldUnit → List FieldUnit → FieldUnit
  | .single f v, _ => .single f v
  | .choice n o _ i, cs => .choice n o cs i
  | .sequence _, cs => .sequence cs

/-- The alternative of a choice that counts: the selected one, or the last when the selection lies
beyond it. -/
def pick (alternatives : List FieldUnit) (selected : Nat) : Option FieldUnit :=
  alternatives[min selected (alternatives.length - 1)]?

end FieldUnit

/-! ### Single fields in declaration order -/

mutual

/-- The single fields of a unit with their texts, all alternatives of a choice included. -/
def FieldUnit.singles : FieldUnit → List (FieldSpec × Option String)
  | .single f v => [(f, v)]
  | .choice _ _ cs _ => Units.singles cs
  | .sequence cs => Units.singles cs

/-- The single fields of a forest with their texts, in declaration order. -/
def Units.singles : List FieldUnit → List (FieldSpec × Option String)
  | [] => []
  | u :: us => u.singles ++ Units.singles us

end

namespace Units

/-- What the schema says of the single fields, in declaration order. -/
def specs (us : List FieldUnit) : List FieldSpec :=
  (singles us).map (·.1)

/-- The fields that carry child nodes, in declaration order. -/
def nodeFields (us : List FieldUnit) : List FieldSpec :=
  (specs us).filter (·.kind.isNode)

/-- The fields that carry text, in declaration order. -/
def tokenFields (us : List FieldUnit) : List FieldSpec :=
  (specs us).filter (·.kind.isToken)

/-- Names without repetition, each at the place where it first stood. -/
def distinct : List String → List String
  | [] => []
  | n :: ns => n :: (distinct ns).filter (· != n)

/-- The names of the fields that carry child nodes, in the order of their first declaration. -/
def nodeFieldNames (us : List FieldUnit) : List String :=
  distinct ((nodeFields us).map (·.name))

/-- The names of the fields that carry text, in the order of their first declaration. -/
def tokenFieldNames (us : List FieldUnit) : List String :=
  distinct ((tokenFields us).map (·.name))

/-- The texts that are set, each with the name of its field, in declaration order. -/
def texts (us : List FieldUnit) : List (String × String) :=
  (singles us).filterMap fun s => s.2.map (s.1.name, ·)

/-- The unit at a path. The empty path addresses none. -/
def unitAt? (us : List FieldUnit) : List Nat → Option FieldUnit
  | [] => none
  | [i] => us[i]?
  | i :: j :: path => us[i]?.bind fun u => unitAt? u.children (j :: path)

end Units

/-! ### Setting texts -/

mutual

/-- The unit in which every single field called `name` has the text `value`. -/
def FieldUnit.withValue (name : String) (value : Option String) : FieldUnit → FieldUnit
  | .single f v => .single f (if f.name = name then value else v)
  | .choice n o cs i => .choice n o (Units.withValue name value cs) i
  | .sequence cs => .sequence (Units.withValue name value cs)

/-- The forest in which every single field called `name` has the text `value`. -/
def Units.withValue (name : String) (value : Option String) : List FieldUnit → List FieldUnit
  | [] => []
  | u :: us => u.withValue name value :: Units.withValue name value us

end

mutual

/-- What a unit contributes to the search for the text of a field: `none` lets the search go on. A
field of the name at this very level ends the search, also without a text; one further down only
when it has a text. -/
def FieldUnit.search (name : String) : FieldUnit → Option (Option String)
  | .single f v => if f.name = name then some v else none
  | .choice _ _ cs _ => (Units.value? name cs).map some
  | .sequence cs => (Units.value? name cs).map some

/-- The text of the field called `name`, if the search through the forest finds one. -/
def Units.value? (name : String) : List FieldUnit → Option String
  | [] => none
  | u :: us =>
    match u.search name with
    | some found => found
    | none => Units.value? name us

end

/-! ### Selecting alternatives -/

mutual

/-- The unit in which every choice called `name` selects `index`. The alternatives of such a choice
stay as they are. -/
def FieldUnit.withNamedChoice (name : String) (index : Nat) : FieldUnit → FieldUnit
  | .single f v => .single f v
  | .choice n o cs i =>
    if n = some name then .choice n o cs index
    else .choice n o (Units.withNamedChoice name index cs) i
  | .sequence cs => .sequence (Units.withNamedChoice name index cs)

/-- The forest in which every choice called `name` selects `index`, except below such a choice. -/
def Units.withNamedChoice (name : String) (index : Nat) : List FieldUnit → List FieldUnit
  | [] => []
  | u :: us => u.withNamedChoice name index :: Units.withNamedChoice name index us

end

namespace Units

/-- The forest in which the choice at a path selects `index`, or `none` when the path does not lead
to a choice. -/
def withChoice? (us : List FieldUnit) (index : Nat) : List Nat → Option (List FieldUnit)
  | [] => none
  | [i] =>
    match us[i]? with
    | some (.choice n o cs _) => some (us.set i (.choice n o cs index))
    | _ => none
  | i :: j :: path =>
    match us[i]? with
    | some u => (withChoice? u.children index (j :: path)).map fun cs => us.set i (u.withChildren cs)
    | none => none

/-- The selected alternative of the choice at a path. -/
def selectedAt? (us : List FieldUnit) (path : List Nat) : Option Nat :=
  match unitAt? us path with
  | some (.choice _ _ _ i) => some i
  | _ => none

end Units

mutual

/-- The choices of a unit that stands at `path`, each with its path and selection, the outer before
the inner. -/
def FieldUnit.choices (path : List Nat) : FieldUnit → List (List Nat × Nat)
  | .single .. => []
  | .choice _ _ cs i => (path, i) :: Units.choicesFrom path 0 cs
  | .sequence cs => Units.choicesFrom path 0 cs

/-- The choices of the units at the positions from `i` on below `path`. -/
def Units.choicesFrom (path : List Nat) (i : Nat) : List FieldUnit → List (List Nat × Nat)
  | [] => []
  | u :: us => u.choices (path ++ [i]) ++ Units.choicesFrom path (i + 1) us

end

/-- The choices of a forest with their paths and selections, the outer before the inner. -/
def Units.choices (us : List FieldUnit) : List (List Nat × Nat) :=
  Units.choicesFrom [] 0 us

/-! ### Small facts -/

/-- Induction on a unit: what is shown of a choice or a sequence may use what holds of every unit
right below it. -/
@[elab_as_elim]
theorem FieldUnit.induction {motive : FieldUnit → Prop}
    (single : ∀ f v, motive (.single f v))
    (choice : ∀ n o cs i, (∀ u ∈ cs, motive u) → motive (.choice n o cs i))
    (sequence : ∀ cs, (∀ u ∈ cs, motive u) → motive (.sequence cs)) : ∀ u, motive u
  | .single f v => single f v
  | .choice n o cs i =>
    choice n o cs i fun u hu =>
      have := List.sizeOf_lt_of_mem hu
      FieldUnit.induction single choice sequence u
  | .sequence cs =>
    sequence cs fun u hu =>
      have := List.sizeOf_lt_of_mem hu
      FieldUnit.induction single choice sequence u
termination_by u => sizeOf u

@[simp] theorem Units.singles_nil : Units.singles [] = [] := by rw [Units.singles]

@[simp] theorem Units.singles_cons (u : FieldUnit) (us : List FieldUnit) :
    Units.singles (u :: us) = u.singles ++ Units.singles us := by rw [Units.singles]

theorem Units.withNamedChoice_eq_map (name : String) (index : Nat) (us : List FieldUnit) :
    Units.withNamedChoice name index us = us.map (FieldUnit.withNamedChoice name index) := by
  induction us with
  | nil => rw [Units.withNamedChoice]; rfl
  | cons u us ih => rw [Units.withNamedChoice, ih]; rfl

theorem Units.mem_distinct {n : String} {ns : List String} : n ∈ Units.distinct ns ↔ n ∈ ns := by
  induction ns with
  | nil => simp [Units.distinct]
  | cons m ns ih =>
    by_cases h : n = m
    · simp [Units.distinct, h]
    · simp [Units.distinct, ih, h]

theorem Units.nodup_distinct (ns : List String) : (Units.distinct ns).Nodup := by
  induction ns with
  | nil => simp [Units.distinct]
  | cons m ns ih =>
    simp only [Units.distinct, List.nodup_cons]
    exact ⟨by simp, ih.filter _⟩

theorem FieldUnit.sizeOf_lt_of_pick {cs : List FieldUnit} {i : Nat} {u : FieldUnit}
    (h : FieldUnit.pick cs i = some u) : sizeOf u < sizeOf cs :=
  List.sizeOf_lt_of_mem (List.mem_of_getElem? h)

theorem FieldUnit.children_withChildren (u : FieldUnit) (cs : List FieldUnit)
    (h : ∀ f v, u ≠ .single f v) : (u.withChildren cs).children = cs := by
  cases u with
  | single f v => exact absurd rfl (h f v)
  | choice => rfl
  | sequence => rfl

end SyntaxGraph
