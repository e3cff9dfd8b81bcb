import SyntaxGraph.Json.Reader
import SyntaxGraph.Json.Writer
import SyntaxGraph.Schema.Template

/-!
# Templates as JSON

Field specifications and templates are records. A unit is an object whose member `unit` says what it
is: `single`, `choice` or `sequence`. Texts, names, bases and comments that are not set are left
out when written and may be left out or `null` when read.

A unit is held in memory before it is taken apart, so the limits on nesting and on numbers hold for
all of it, unknown members included. A unit may also be an array that starts with what it is. Below
another unit, its kind may be given by number.
-/

namespace SyntaxGraph

/-- A member that is written only when it is set. -/
def Json.optionalMember (name : String) (s : Option String) : List (String × Json) :=
  match s with
  | some s => [(name, .ofString s)]
  | none => []

/-- A list of texts as JSON. -/
def Json.ofTexts (ss : List String) : Json :=
  .array (ss.map .ofString)

/-! ### Writing -/

/-- A field specification as JSON. -/
def FieldSpec.toJson (f : FieldSpec) : Json :=
  .ofMembers ([
    ("name", .ofString f.name),
    ("field_type", .ofString f.declaredType),
    ("optional", .bool f.optional),
    ("override", .bool f.overrides),
    ("min_count", .ofNat f.minCount.toNat),
    ("allow_trailing_separator", .bool f.allowTrailingSeparator),
    ("kinds", .ofTexts f.kinds)] ++ Json.optionalMember "comment" f.comment)

mutual

/-- A unit as JSON. -/
def FieldUnit.toJson : FieldUnit → Json
  | .single f v =>
    .ofMembers ([("unit", .ofString "single"), ("field", f.toJson)] ++
      Json.optionalMember "value" v)
  | .choice n o cs i =>
    .ofMembers ([("unit", .ofString "choice")] ++ Json.optionalMember "name" n ++
      [("optional", .bool o), ("children", .array (Units.toJson cs)), ("choice_index", .ofNat i)])
  | .sequence cs =>
    .ofMembers [("unit", .ofString "sequence"), ("children", .array (Units.toJson cs))]

/-- Units as elements of an array. -/
def Units.toJson : List FieldUnit → List Json
  | [] => []
  | u :: us => u.toJson :: Units.toJson us

end

/-- A template as JSON. -/
def Template.toJson (t : Template) : Json :=
  .ofMembers ([("name", .ofString t.name)] ++ Json.optionalMember "base" t.base ++
    [("kinds", .ofTexts t.kinds), ("fields", .array (Units.toJson t.fields))] ++
    Json.optionalMember "type_comment" t.typeComment ++
    Json.optionalMember "factory_comment" t.factoryComment ++
    [("skip_convenience_factories", .bool t.skipConvenienceFactories)])

/-! ### Reading -/

/-- A text that may be `null`. -/
def Json.toOptionalText? : Json → Option (Option String) :=
  Json.toOption? Json.toText?

/-- A field specification from JSON. -/
def FieldSpec.ofJson? (j : Json) : Option FieldSpec := do
  match ← j.record? ["name", "field_type", "optional", "override", "min_count",
      "allow_trailing_separator", "kinds", "comment"] with
  | [name, declaredType, optional, overrides, minCount, trailing, kinds, comment] =>
    return {
      name := ← Json.required? Json.toText? name
      declaredType := ← Json.required? Json.toText? declaredType
      optional := ← Json.orElse? false Json.toBool? optional
      overrides := ← Json.orElse? false Json.toBool? overrides
      minCount := UInt32.ofNat (← Json.orElse? 0 (Json.toNatBelow? UInt32.size) minCount)
      allowTrailingSeparator := ← Json.orElse? false Json.toBool? trailing
      kinds := ← Json.orElse? [] (Json.toList? Json.toText?) kinds
      comment := ← Json.orElse? none Json.toOptionalText? comment }
  | _ => none

/-- What a unit is. -/
inductive FieldUnit.Shape where
  | single
  | choice
  | sequence

namespace FieldUnit

/-- The shape that a name stands for, or, below another unit, a number. -/
def Shape.ofJson? (nested : Bool) : Json → Option Shape
  | .text (some "single") => some .single
  | .text (some "choice") => some .choice
  | .text (some "sequence") => some .sequence
  | .number literal =>
    if nested then
      match Json.Number.natural? literal with
      | some 0 => some .single
      | some 1 => some .choice
      | some 2 => some .sequence
      | _ => none
    else none
  | _ => none

/-- The names of the members that belong to a shape. -/
def Shape.members : Shape → List String
  | .single => ["field", "value"]
  | .choice => ["name", "optional", "children", "choice_index"]
  | .sequence => ["children"]

/-- A unit of the given shape from its members, of which the children are already decoded. -/
def ofMembers? (children : Option (List FieldUnit)) : Shape → List (Option Json) → Option FieldUnit
  | .single, [field, value] => do
    return .single (← Json.required? FieldSpec.ofJson? field)
      (← Json.orElse? none Json.toOptionalText? value)
  | .choice, [name, optional, some _, selected] => do
    return .choice (← Json.orElse? none Json.toOptionalText? name)
      (← Json.orElse? false Json.toBool? optional) (← children)
      (← Json.orElse? 0 (Json.toNatBelow? UInt64.size) selected)
  | .sequence, [some _] => do return .sequence (← children)
  | _, _ => none

/-- The only member called `unit`, and the other members. -/
def splitShape? (ms : List (Option String × Json)) :
    Option (Json × List (Option String × Json)) :=
  match ms.filter (·.1 == some "unit") with
  | [(_, shape)] => some (shape, ms.filter (·.1 != some "unit"))
  | _ => none

end FieldUnit

mutual

/-- A unit from JSON that can be held in memory. -/
def FieldUnit.ofHeld? (nested : Bool) : Json → Option FieldUnit
  | .object ms => do
    let (shape, rest) ← FieldUnit.splitShape? ms
    let shape ← FieldUnit.Shape.ofJson? nested shape
    let members ← Json.record? shape.members (.object rest)
    FieldUnit.ofMembers? (Units.childrenIn? ms) shape members
  | .array (shape :: slots) => do
    let shape ← FieldUnit.Shape.ofJson? nested shape
    let members ← Json.record? shape.members (.array slots)
    let children := match shape with
      | .choice => (Units.asChildren slots)[2]?.join
      | _ => (Units.asChildren slots)[0]?.join
    FieldUnit.ofMembers? children shape members
  | _ => none

/-- The units of the first member called `children`. -/
def Units.childrenIn? : List (Option String × Json) → Option (List FieldUnit)
  | [] => none
  | (k, j) :: ms => if k = some "children" then Units.ofHeld? j else Units.childrenIn? ms

/-- The units of each value, where it is an array of units. -/
def Units.asChildren : List Json → List (Option (List FieldUnit))
  | [] => []
  | j :: js => Units.ofHeld? j :: Units.asChildren js

/-- Units below another unit. -/
def Units.ofHeld? : Json → Option (List FieldUnit)
  | .array js => Units.ofHeldElements? js
  | _ => none

/-- Units below another unit, from the elements of an array. -/
def Units.ofHeldElements? : List Json → Option (List FieldUnit)
  | [] => some []
  | j :: js =>
    match FieldUnit.ofHeld? true j, Units.ofHeldElements? js with
    | some u, some us => some (u :: us)
    | _, _ => none

end

/-- A unit from JSON, of which at most `room` arrays and objects may stand inside one another. -/
def FieldUnit.ofJson? (room : Nat) (j : Json) : Option FieldUnit :=
  if j.isHeld room then FieldUnit.ofHeld? false j else none

/-- A forest of units from JSON, in which at most `room` arrays and objects may stand inside one
another. -/
def Units.ofJson? (room : Nat) : Json → Option (List FieldUnit) :=
  Json.toList? (FieldUnit.ofJson? (room - 1))

/-- A template from JSON, in which at most `room` arrays and objects may stand inside one another. -/
def Template.ofJson? (room : Nat) (j : Json) : Option Template := do
  match ← j.record? ["name", "base", "kinds", "fields", "type_comment", "factory_comment",
      "skip_convenience_factories"] with
  | [name, base, kinds, fields, typeComment, factoryComment, skip] =>
    return {
      name := ← Json.required? Json.toText? name
      base := ← Json.orElse? none Json.toOptionalText? base
      kinds := ← Json.orElse? [] (Json.toList? Json.toText?) kinds
      fields := ← Json.required? (Units.ofJson? (room - 1)) fields
      typeComment := ← Json.orElse? none Json.toOptionalText? typeComment
      factoryComment := ← Json.orElse? none Json.toOptionalText? factoryComment
      skipConvenienceFactories := ← Json.orElse? false Json.toBool? skip }
  | _ => none

end SyntaxGraph
