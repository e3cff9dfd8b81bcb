import SyntaxGraph.Conversion.Fill
import SyntaxGraph.Converted
import SyntaxGraph.Schema.Catalog
import SyntaxGraph.Total

/-!
# Converting trees

A tree node whose tag has a template becomes an instance; the children in the slots of its node
fields are converted after it, in the order of the schema. A node whose tag has no template is
skipped together with everything below it, and its tag is reported.

The conversion keeps a stack of nodes whose children are still being converted, so the depth of the
tree does not matter. Each step lowers the amount of work that is left, which is why it ends.
-/

namespace SyntaxGraph.Conversion

open Schema (Catalog)

/-- What a conversion did. -/
structure Report where
  /-- The number of instances. -/
  converted : Nat := 0
  /-- The tags without a template, one for each skipped subtree, in the order of the visit. -/
  skipped : List String := []
deriving DecidableEq, Repr, Inhabited

/-- Every node that was visited has a template. -/
def Report.isComplete (r : Report) : Bool :=
  r.skipped.isEmpty

/-- The children that are to be converted below a node, each with its field. -/
def pendingOf (t : Template) (n : Tree.Node) : List (String × Tree.Node) :=
  (Units.nodeFieldNames t.fields).flatMap fun name => (n.childrenOf name).map (name, ·)

theorem sizeOf_lt_of_mem_pendingOf {t : Template} {n : Tree.Node} {p : String × Tree.Node}
    (h : p ∈ pendingOf t n) : sizeOf p.2 < sizeOf n := by
  simp only [pendingOf, List.mem_flatMap, List.mem_map] at h
  obtain ⟨name, -, c, hc, rfl⟩ := h
  exact Tree.Node.sizeOf_lt_of_mem_childrenOf hc

/-- A node whose children are still being converted. -/
structure Frame where
  /-- The field of the parent that the node hangs from. -/
  field : String
  state : Instance
  pending : List (String × Tree.Node)
  children : List (String × List ConvertedNode)

/-- Starts a node: a new instance of its template, filled from the node. -/
def openFrame (t : Template) (field : String) (n : Tree.Node) (counter : Counter) :
    Frame × Counter :=
  let (i, counter) := Instance.stamp t counter
  (⟨field, fillValues i n, pendingOf t n, []⟩, counter)

/-- Completes a node: its choices are resolved from the fields that have children. -/
def closeFrame (f : Frame) : ConvertedNode :=
  .mk (resolve (isRealized (f.children.map (·.1))) f.state) f.children

/-- The state of a conversion. -/
structure Run where
  frames : List Frame
  report : Report
  counter : Counter
  /-- The root, once it is complete. -/
  result : Option ConvertedNode

/-- Visits a node: it is started, or skipped when its tag has no template. -/
def visit (c : Catalog) (field : String) (n : Tree.Node) (r : Run) : Run :=
  match c.templateForTag? n.tag with
  | some t =>
    let (f, counter) := openFrame t field n r.counter
    { r with
      frames := f :: r.frames
      counter := counter
      report := { r.report with converted := r.report.converted + 1 } }
  | none => { r with report := { r.report with skipped := r.report.skipped ++ [n.tag] } }

/-- One step: the next child of the innermost node is visited, or the node is completed and handed
to the node around it. -/
def step (c : Catalog) (r : Run) : Option Run :=
  match r.frames with
  | [] => none
  | f :: fs =>
    match f.pending with
    | (field, n) :: rest => some (visit c field n { r with frames := { f with pending := rest } :: fs })
    | [] =>
      let node := closeFrame f
      match fs with
      | [] => some { r with frames := [], result := some node }
      | p :: ps =>
        some { r with
          frames := { p with children := ConvertedNode.attach f.field node p.children } :: ps }

/-! ### The work that is left -/

/-- The number of steps that converting a node takes. -/
def work (c : Catalog) (n : Tree.Node) : Nat :=
  match c.templateForTag? n.tag with
  | none => 1
  | some t => 2 + total ((pendingOf t n).attach.map fun p => work c p.1.2)
termination_by sizeOf n
decreasing_by exact sizeOf_lt_of_mem_pendingOf p.2

theorem work_of_none {c : Catalog} {n : Tree.Node} (h : c.templateForTag? n.tag = none) :
    work c n = 1 := by
  rw [work]
  simp [h]

theorem work_of_some {c : Catalog} {n : Tree.Node} {t : Template}
    (h : c.templateForTag? n.tag = some t) :
    work c n = 2 + total ((pendingOf t n).map fun p => work c p.2) := by
  rw [work]
  simp only [h]
  rw [List.attach_map_val (f := fun p : String × Tree.Node => work c p.2)]

/-- The number of steps that completing a node takes. -/
def frameWork (c : Catalog) (f : Frame) : Nat :=
  1 + total (f.pending.map fun p => work c p.2)

/-- The number of steps that are left. -/
def workLeft (c : Catalog) (r : Run) : Nat :=
  total (r.frames.map (frameWork c))

theorem workLeft_visit (c : Catalog) (field : String) (n : Tree.Node) (r : Run) :
    workLeft c (visit c field n r) + 1 = workLeft c r + work c n := by
  unfold visit
  cases h : c.templateForTag? n.tag with
  | none => simp [workLeft, work_of_none h]
  | some t =>
    rw [work_of_some h]
    simp only [workLeft, openFrame, List.map_cons, total_cons, frameWork]
    omega

theorem workLeft_step {c : Catalog} {r s : Run} (h : step c r = some s) :
    workLeft c s < workLeft c r := by
  unfold step at h
  split at h
  · simp at h
  · rename_i f fs hf
    split at h
    · rename_i field n rest hp
      simp only [Option.some.injEq] at h
      subst h
      have hv := workLeft_visit c field n { r with frames := { f with pending := rest } :: fs }
      simp only [workLeft, hf, List.map_cons, total_cons, frameWork, hp] at hv ⊢
      omega
    · rename_i hp
      simp only [workLeft, hf, List.map_cons, total_cons, frameWork, hp]
      split at h
      all_goals
        simp only [Option.some.injEq] at h
        subst h
        simp [frameWork]

/-- Takes steps until the root is complete. -/
def runFrames (c : Catalog) (r : Run) : Run :=
  match h : step c r with
  | none => r
  | some s =>
    have := workLeft_step h
    runFrames c s
termination_by workLeft c r

/-- The outcome of a conversion: the root unless it is skipped, and the report. -/
structure Outcome where
  root : Option ConvertedNode
  report : Report

/-- Converts a tree. -/
def convert (c : Catalog) (root : Tree.Node) (counter : Counter) : Outcome × Counter :=
  let r := runFrames c (visit c "" root ⟨[], {}, counter, none⟩)
  (⟨r.result, r.report⟩, r.counter)

end SyntaxGraph.Conversion
