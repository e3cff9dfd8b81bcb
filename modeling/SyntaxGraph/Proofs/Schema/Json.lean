import SyntaxGraph.Proofs.Json.Plain
import SyntaxGraph.Schema.Json

/-!
# Units and templates from their JSON

Field specifications, units and templates are read back from the JSON that is written for them. What
is left out when it is not set is read as not set. A unit leads with its shape, and the members after
it are named in the order of the shape's, so that nothing is passed over.

The selected alternatives of choices are the only numbers without a bound of their own: a unit is read
back when they are words. As units are held in memory, there also has to be room for their nesting.
-/

namespace SyntaxGraph

/-! ### The selected alternatives -/

mutual

/-- The numbers of the alternatives that the choices of a unit select. -/
def FieldUnit.indices : FieldUnit → List Nat
  | .single .. => []
  | .choice _ _ cs i => i :: Units.indices cs
  | .sequence cs => Units.indices cs

/-- The numbers of the alternatives that the choices of a forest select. -/
def Units.indices : List FieldUnit → List Nat
  | [] => []
  | u :: us => u.indices ++ Units.indices us

end

theorem Units.mem_indices {us : List FieldUnit} {i : Nat} :
    i ∈ Units.indices us ↔ ∃ u ∈ us, i ∈ u.indices := by
  induction us with
  | nil => simp [Units.indices]
  | cons u us ih => simp [Units.indices, ih]

/-- The numbers are words. -/
def Words (indices : List Nat) : Prop :=
  ∀ i ∈ indices, i < UInt64.size

instance (indices : List Nat) : Decidable (Words indices) :=
  inferInstanceAs (Decidable (∀ i ∈ indices, i < UInt64.size))

theorem Units.words_indices {us : List FieldUnit} :
    Words (Units.indices us) ↔ ∀ u ∈ us, Words u.indices := by
  simp only [Words, Units.mem_indices]
  exact ⟨fun h u hu i hi => h i ⟨u, hu, hi⟩, fun h i ⟨u, hu, hi⟩ => h u hu i hi⟩

theorem Units.toJson_eq_map (us : List FieldUnit) : Units.toJson us = us.map FieldUnit.toJson := by
  induction us with
  | nil => rw [Units.toJson]; rfl
  | cons u us ih => rw [Units.toJson, ih]; rfl

/-! ### What is written is plain -/

section Plain

variable {fits : Nat → Prop}

theorem Json.plain_optionalMember (name : String) (s : Option String) :
    ∀ m ∈ Json.optionalMember name s, m.2.Plain fits := by
  cases s with
  | none => simp [optionalMember]
  | some s => simpa [optionalMember] using Plain.text s

theorem Json.plain_ofTexts (ss : List String) : (Json.ofTexts ss).Plain fits :=
  .array (List.forall_mem_map.2 fun s _ => .text s)

/-- Units are written as a plain array if each of them is written plain. -/
theorem Units.plain_of_forall {us : List FieldUnit}
    (hus : ∀ u ∈ us, (∀ i ∈ u.indices, fits i) → u.toJson.Plain fits)
    (h : ∀ i ∈ Units.indices us, fits i) : (Json.array (Units.toJson us)).Plain fits := by
  rw [Units.toJson_eq_map]
  refine .array (List.forall_mem_map.2 fun u hu => ?_)
  exact hus u hu fun i hi => h i (Units.mem_indices.2 ⟨u, hu, hi⟩)

variable (hwords : ∀ n, n < UInt64.size → fits n)
include hwords

theorem FieldSpec.plain_toJson (f : FieldSpec) : f.toJson.Plain fits := by
  have hcount : f.minCount.toNat < UInt64.size :=
    Nat.lt_trans f.minCount.toNat_lt (by decide)
  refine .object ?_
  simp only [List.forall_mem_append, List.forall_mem_cons]
  exact ⟨⟨.text _, .text _, .bool _, .bool _, .nat (hwords _ hcount), .bool _,
    Json.plain_ofTexts _, by simp⟩, Json.plain_optionalMember _ _⟩

theorem FieldUnit.plain_toJson (u : FieldUnit) (h : ∀ i ∈ u.indices, fits i) :
    u.toJson.Plain fits := by
  induction u using FieldUnit.induction with
  | single f v =>
    rw [FieldUnit.toJson]
    refine .object ?_
    simp only [List.forall_mem_append, List.forall_mem_cons]
    exact ⟨⟨.text _, f.plain_toJson hwords, by simp⟩, Json.plain_optionalMember _ _⟩
  | choice n o cs i ih =>
    rw [FieldUnit.indices, List.forall_mem_cons] at h
    rw [FieldUnit.toJson]
    refine .object ?_
    simp only [List.forall_mem_append, List.forall_mem_cons]
    exact ⟨⟨⟨.text _, by simp⟩, Json.plain_optionalMember _ _⟩, .bool _,
      Units.plain_of_forall ih h.2, .nat h.1, by simp⟩
  | sequence cs ih =>
    rw [FieldUnit.indices] at h
    rw [FieldUnit.toJson]
    refine .object ?_
    simp only [List.forall_mem_cons]
    exact ⟨.text _, Units.plain_of_forall ih h, by simp⟩

theorem Units.plain_toJson {us : List FieldUnit} (h : ∀ i ∈ Units.indices us, fits i) :
    (Json.array (Units.toJson us)).Plain fits :=
  Units.plain_of_forall (fun u _ => u.plain_toJson hwords) h

theorem Template.plain_toJson (t : Template) (h : ∀ i ∈ Units.indices t.fields, fits i) :
    t.toJson.Plain fits := by
  refine .object ?_
  simp only [List.forall_mem_append, List.forall_mem_cons]
  exact ⟨⟨⟨⟨⟨⟨.text _, by simp⟩, Json.plain_optionalMember _ _⟩, Json.plain_ofTexts _,
    Units.plain_toJson hwords h, by simp⟩, Json.plain_optionalMember _ _⟩,
    Json.plain_optionalMember _ _⟩, .bool _, by simp⟩

end Plain

/-! ### Reading -/

@[simp] theorem Json.toList?_ofTexts (ss : List String) :
    (Json.ofTexts ss).toList? Json.toText? = some ss :=
  Json.toList?_array_map_of_all fun _ _ => rfl

/-- A member is found under its name only, and only when it is set. -/
@[simp] theorem Json.lookup_optionalMember (name key : String) (s : Option String) :
    (Json.optionalMember name s).lookup key = if key = name then s.map .ofString else none := by
  cases s with
  | none => simp [optionalMember]
  | some s =>
    by_cases h : key = name
    · simp [optionalMember, h]
    · have hkey : (key == name) = false := by simpa using h
      simp [optionalMember, List.lookup_cons, h, hkey]

/-- A text that may be left out is read as it was set. -/
@[simp] theorem Json.orElse?_toOptionalText? (s : Option String) :
    Json.orElse? none Json.toOptionalText? (s.map .ofString) = some s := by
  cases s <;> rfl

theorem FieldSpec.ofJson?_toJson (f : FieldSpec) : FieldSpec.ofJson? f.toJson = some f := by
  have hcount : (Json.ofNat f.minCount.toNat).toNatBelow? UInt32.size = some f.minCount.toNat := by
    rw [Json.toNatBelow?_ofNat, if_pos f.minCount.toNat_lt]
  rw [FieldSpec.ofJson?, FieldSpec.toJson, Json.record?_ofMembers (by decide)
    (by cases f.comment <;> simp [Json.optionalMember])]
  simp [List.lookup_cons, hcount]

namespace FieldUnit

/-- The shape stands first and is the only member of its name. -/
theorem splitShape?_ofMembers {ms : List (String × Json)} (h : "unit" ∉ ms.map (·.1))
    (shape : Json) :
    splitShape? ((("unit", shape) :: ms).map fun m => (some m.1, m.2)) =
      some (shape, ms.map fun m => (some m.1, m.2)) := by
  have hnone : ∀ m ∈ ms.map fun m => ((some m.1, m.2) : Option String × Json),
      m.1 ≠ some "unit" := by
    simp only [List.forall_mem_map]
    intro m hm hname
    exact h (Option.some.inj hname ▸ List.mem_map_of_mem hm)
  have hfilter : (ms.map fun m => ((some m.1, m.2) : Option String × Json)).filter
      (·.1 == some "unit") = [] := by
    simp only [List.filter_eq_nil_iff]
    intro m hm
    simpa using hnone m hm
  have hrest : (ms.map fun m => ((some m.1, m.2) : Option String × Json)).filter
      (·.1 != some "unit") = ms.map fun m => (some m.1, m.2) := by
    simp only [List.filter_eq_self]
    intro m hm
    simpa using hnone m hm
  simp [splitShape?, hfilter, hrest]

theorem childrenIn?_map (ms : List (String × Json)) :
    Units.childrenIn? (ms.map fun m => (some m.1, m.2)) =
      (ms.lookup "children").bind Units.ofHeld? := by
  induction ms with
  | nil => rw [List.map_nil, Units.childrenIn?]; rfl
  | cons m ms ih =>
    rw [List.map_cons, Units.childrenIn?, List.lookup_cons]
    by_cases h : m.1 = "children"
    · simp [h]
    · have hkey : ("children" == m.1) = false := by simpa using Ne.symm h
      simp [h, hkey, ih]

/-- A unit whose members follow its shape in the order of the shape's members. -/
theorem ofHeld?_ofMembers {nested : Bool} {name : String} (shape : Shape)
    (hshape : Shape.ofJson? nested (.ofString name) = some shape) {ms : List (String × Json)}
    (hsublist : (ms.map (·.1)).Sublist shape.members) :
    ofHeld? nested (.ofMembers (("unit", .ofString name) :: ms)) =
      ofMembers? ((ms.lookup "children").bind Units.ofHeld?) shape
        (shape.members.map fun name => ms.lookup name) := by
  have hmembers : shape.members.Nodup ∧ "unit" ∉ shape.members := by
    cases shape <;> decide
  have hsplit := splitShape?_ofMembers (fun h => hmembers.2 (hsublist.subset h)) (.ofString name)
  have hrecord : Json.record? shape.members (.object (ms.map fun m => (some m.1, m.2))) =
      some (shape.members.map fun name => ms.lookup name) :=
    Json.record?_ofMembers hmembers.1 hsublist
  rw [← childrenIn?_map, Json.ofMembers, ofHeld?, hsplit]
  simp [hshape, hrecord, Units.childrenIn?]

end FieldUnit

/-- Units below another unit are decoded one by one. -/
theorem Units.ofHeld?_eq (j : Json) : Units.ofHeld? j = j.toList? (FieldUnit.ofHeld? true) := by
  cases j with
  | array js =>
    rw [Units.ofHeld?, Json.toList?]
    induction js with
    | nil => rw [Units.ofHeldElements?]; rfl
    | cons j js ih =>
      rw [Units.ofHeldElements?, ih, List.mapM_cons]
      cases FieldUnit.ofHeld? true j <;> cases js.mapM (FieldUnit.ofHeld? true) <;> rfl
  | _ => rw [Units.ofHeld?.eq_def, Json.toList?.eq_def]

theorem Units.ofHeld?_toJson {us : List FieldUnit}
    (h : ∀ u ∈ us, FieldUnit.ofHeld? true u.toJson = if Words u.indices then some u else none) :
    Units.ofHeld? (.array (Units.toJson us)) =
      if Words (Units.indices us) then some us else none := by
  rw [Units.ofHeld?_eq, Units.toJson_eq_map, Json.toList?_array_map h]
  simp only [Units.words_indices]

/-- **A unit is read back from its JSON**, below another unit or not, exactly when its numbers are
words. -/
theorem FieldUnit.ofHeld?_toJson (u : FieldUnit) (nested : Bool) :
    FieldUnit.ofHeld? nested u.toJson = if Words u.indices then some u else none := by
  induction u using FieldUnit.induction generalizing nested with
  | single f v =>
    rw [FieldUnit.toJson, List.cons_append, ofHeld?_ofMembers .single rfl
      (by cases v <;> simp [Json.optionalMember, Shape.members])]
    simp [List.lookup_cons, Shape.members, ofMembers?, FieldSpec.ofJson?_toJson, FieldUnit.indices,
      Words]
  | choice n o cs i ih =>
    have hcs := Units.ofHeld?_toJson fun u hu => ih u hu true
    have hindex := Json.toNatBelow?_ofNat UInt64.size i
    have hwords : Words (FieldUnit.choice n o cs i).indices ↔
        i < UInt64.size ∧ Words (Units.indices cs) := by
      rw [FieldUnit.indices]
      exact List.forall_mem_cons
    rw [FieldUnit.toJson, List.append_assoc, List.cons_append,
      ofHeld?_ofMembers .choice rfl
        (by cases n <;> simp [Json.optionalMember, Shape.members])]
    by_cases hi : i < UInt64.size <;> by_cases hws : Words (Units.indices cs) <;>
      simp [List.lookup_append, List.lookup_cons, Shape.members, ofMembers?, hcs, hindex, hwords, hi,
        hws]
  | sequence cs ih =>
    have hcs := Units.ofHeld?_toJson fun u hu => ih u hu true
    rw [FieldUnit.toJson, ofHeld?_ofMembers .sequence rfl (by simp [Shape.members])]
    by_cases hws : Words (Units.indices cs) <;>
      simp [List.lookup_cons, Shape.members, ofMembers?, hcs, FieldUnit.indices, hws]

/-- There is room for the units, and their numbers are words. -/
def Units.Loadable (room : Nat) (us : List FieldUnit) : Prop :=
  ∀ u ∈ us, u.toJson.isHeld (room - 1) = true ∧ Words u.indices

instance (room : Nat) (us : List FieldUnit) : Decidable (Units.Loadable room us) :=
  inferInstanceAs (Decidable (∀ u ∈ us, u.toJson.isHeld (room - 1) = true ∧ Words u.indices))

theorem Units.loadable {room : Nat} {us : List FieldUnit}
    (hroom : (Json.array (Units.toJson us)).nesting ≤ room) (hwords : Words (Units.indices us)) :
    Units.Loadable room us := by
  intro u hu
  rw [Units.toJson_eq_map] at hroom
  have hnesting := (Json.nesting_array_le.1 hroom).2 u.toJson (List.mem_map_of_mem hu)
  have hu := Units.words_indices.1 hwords u hu
  exact ⟨(u.plain_toJson (fun _ hn => hn) hu).isHeld hnesting, hu⟩

theorem Units.ofJson?_toJson (room : Nat) (us : List FieldUnit) :
    Units.ofJson? room (.array (Units.toJson us)) =
      if Units.Loadable room us then some us else none := by
  rw [Units.toJson_eq_map]
  refine Json.toList?_array_map fun u _ => ?_
  rw [FieldUnit.ofJson?, FieldUnit.ofHeld?_toJson]
  split <;> simp [*]

/-- **A template is read back from its JSON** exactly when its units can be loaded. -/
theorem Template.ofJson?_toJson (room : Nat) (t : Template) :
    Template.ofJson? room t.toJson =
      if Units.Loadable (room - 1) t.fields then some t else none := by
  rw [Template.ofJson?, Template.toJson, Json.record?_ofMembers (by decide)
    (by cases t.base <;> cases t.typeComment <;> cases t.factoryComment <;>
      simp [Json.optionalMember])]
  have hfields := Units.ofJson?_toJson (room - 1) t.fields
  by_cases h : Units.Loadable (room - 1) t.fields <;>
    simp [List.lookup_append, List.lookup_cons, hfields, h]

end SyntaxGraph
