import SyntaxGraph.Graph.Basic

/-!
# The edge index

An index is filled edge by edge. An edge with a named field puts its target at the end of one list,
the one of its source and its field, and leaves all others as they are; an edge with an empty field
leaves all of them. So each list has the targets of its own edges in edge order, however these are
mixed with others, and is the one that a scan of all edges finds.
-/

namespace SyntaxGraph.EdgeIndex

/-- What one edge adds to the children of a field. -/
def addition (e : Edge) (source : InstanceId) (field : String) : List InstanceId :=
  if e.field ≠ "" ∧ e.source = source ∧ e.field = field then [e.target] else []

/-- An edge adds to the children of its own field only, and only if the field has a name. -/
theorem children_add (ix : EdgeIndex) (e : Edge) (source : InstanceId) (field : String) :
    (ix.add e).children source field = ix.children source field ++ addition e source field := by
  by_cases hname : e.field = ""
  · simp [add, addition, hname]
  · have hadd : ¬e.field.isEmpty = true := by simpa using hname
    rw [add, if_neg hadd, addition]
    simp only [children, Std.HashMap.getElem?_alter]
    by_cases hsource : e.source = source
    · -- the row of the source is there or not, and in it the list of the field
      subst hsource
      by_cases hfield : e.field = field
      · subst hfield
        cases ix.targets[e.source]? with
        | none => simp [hname]
        | some fields =>
          cases hlist : fields[e.field]? <;> simp [hname, hlist]
      · cases ix.targets[e.source]? <;> simp [Std.HashMap.getElem?_alter, hfield]
    · simp [hsource]

/-- Further edges leave the children found so far in front. -/
theorem children_foldl_add (edges : List Edge) (ix : EdgeIndex) (source : InstanceId)
    (field : String) : (edges.foldl add ix).children source field =
      ix.children source field ++ edges.flatMap (addition · source field) := by
  induction edges generalizing ix with
  | nil => simp
  | cons e edges ih =>
    rw [List.foldl_cons, ih, children_add, List.flatMap_cons, List.append_assoc]

/-- All additions to a field with a name are what a scan finds. -/
theorem flatMap_addition (edges : List Edge) (source : InstanceId) (field : String) :
    edges.flatMap (addition · source field) =
      if field.isEmpty then [] else Edge.targetsFrom edges source field := by
  induction edges with
  | nil => simp [Edge.targetsFrom]
  | cons e edges ih =>
    rw [List.flatMap_cons, ih, addition]
    by_cases hedge : e.source = source ∧ e.field = field
    · obtain ⟨rfl, rfl⟩ := hedge
      by_cases hname : e.field = "" <;> simp [hname, Edge.targetsFrom]
    · have hne : (e.source == source && e.field == field) = false := by simpa using hedge
      rw [if_neg fun h => hedge h.2, List.nil_append, Edge.targetsFrom, Edge.targetsFrom,
        List.filter_cons_of_neg (by simp [hne])]

/-- The index gives the targets of the edges from a field, except for the empty field. -/
theorem children_build (edges : List Edge) (source : InstanceId) (field : String) :
    (build edges).children source field =
      if field.isEmpty then [] else Edge.targetsFrom edges source field := by
  have hempty : (⟨∅⟩ : EdgeIndex).children source field = [] := by simp [children]
  rw [build, children_foldl_add, hempty, List.nil_append, flatMap_addition]

/-- A child of a field is there for an edge, and only a field with a name has children. -/
theorem mem_children_build {edges : List Edge} {source target : InstanceId} {field : String} :
    target ∈ (build edges).children source field ↔
      field.isEmpty = false ∧ ⟨source, field, target⟩ ∈ edges := by
  rw [children_build]
  split
  · simp_all
  · rename_i hfield
    rw [Edge.targetsFrom, List.mem_map, and_iff_right (Bool.eq_false_iff.2 hfield)]
    constructor
    · rintro ⟨e, he, rfl⟩
      obtain ⟨hmem, hends⟩ := List.mem_filter.1 he
      simp only [Bool.and_eq_true, beq_iff_eq] at hends
      obtain ⟨rfl, rfl⟩ := hends
      exact hmem
    · exact fun he => ⟨_, List.mem_filter.2 ⟨he, by simp⟩, rfl⟩

/-- **The index finds what a scan of all edges finds.** The children of a field with a name are the
targets of the edges with this source and this field, in edge order and as often as they occur; the
empty field has none. So the children that the index of a graph gives for a field with a name are
those of the graph. -/
theorem children_build_scan (source : InstanceId) (field : String) :
    (∀ edges : List Edge, (build edges).children source field =
      if field = "" then []
      else (edges.filter fun e => e.source = source ∧ e.field = field).map (·.target)) ∧
    (field ≠ "" → ∀ g : Graph,
      (build g.edges).children source field = g.children source field) := by
  constructor
  · intro edges
    have hscan : (edges.filter fun e => e.source == source && e.field == field) =
        edges.filter fun e => e.source = source ∧ e.field = field :=
      List.filter_congr fun e _ => by rw [Bool.eq_iff_iff]; simp
    rw [children_build, Edge.targetsFrom, hscan]
    simp only [String.isEmpty_iff]
  · intro hname g
    rw [children_build, if_neg (by simpa using hname), Graph.children]

/-- Edges of two sources and two fields in turn, one of them twice and one without a field. -/
def mingled : Graph where
  edges := [⟨⟨1⟩, "A", ⟨2⟩⟩, ⟨⟨2⟩, "A", ⟨3⟩⟩, ⟨⟨1⟩, "B", ⟨4⟩⟩, ⟨⟨1⟩, "", ⟨5⟩⟩, ⟨⟨1⟩, "A", ⟨2⟩⟩,
    ⟨⟨2⟩, "B", ⟨1⟩⟩, ⟨⟨1⟩, "A", ⟨1⟩⟩]

theorem children_build_mingled :
    "A" ≠ "" ∧ (build mingled.edges).children ⟨1⟩ "A" = [⟨2⟩, ⟨2⟩, ⟨1⟩] ∧
      (build mingled.edges).children ⟨1⟩ "A" = mingled.children ⟨1⟩ "A" ∧
      (build mingled.edges).children ⟨1⟩ "" = [] ∧ mingled.children ⟨1⟩ "" = [⟨5⟩] := by
  have hname : "A" ≠ "" := by decide
  refine ⟨hname, ?_, (children_build_scan ⟨1⟩ "A").2 hname mingled, ?_, by decide⟩
  · rw [(children_build_scan ⟨1⟩ "A").1]
    decide
  · rw [(children_build_scan ⟨1⟩ "").1]
    rfl

end SyntaxGraph.EdgeIndex
