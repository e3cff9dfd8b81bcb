import SyntaxGraph.Conversion.Basic
import SyntaxGraph.Proofs.Identity

/-!
# What conversion means

The conversion of a node by recursion on the tree, with the counter handed on from child to child in
place of a stack of frames. A node whose tag has no template gives nothing and takes no id. Any other
node takes the next id, and then its children are converted, field by field in the order of the
schema; a field is there only when one of its children was converted.

The nodes that conversion visits form a list of their own, `visits`, in depth-first order. The report
of a conversion is read off this list.

The main statement says that the stack of frames computes this meaning and this report.
-/

namespace SyntaxGraph.Conversion

open Schema (Catalog)

/-! ### Conversion by recursion -/

/-- The results of a function that takes ids, for the entries of a list in order. -/
def inTurn (f : α → Counter → β × Counter) : List α → Counter → List β × Counter
  | [], counter => ([], counter)
  | a :: as, counter =>
    let (b, counter) := f a counter
    let (bs, counter) := inTurn f as counter
    (b :: bs, counter)

/-- The fields of the given names with their children, which `f` converts. A field is there only
when it has children. -/
def fieldsInTurn (f : String → Counter → List ConvertedNode × Counter) :
    List String → Counter → List (String × List ConvertedNode) × Counter
  | [], counter => ([], counter)
  | name :: names, counter =>
    let (children, counter) := f name counter
    let (fields, counter) := fieldsInTurn f names counter
    (if children.isEmpty then fields else (name, children) :: fields, counter)

/-- The converted node of an instance and its converted children: its choices are resolved from the
fields that have children. -/
def assemble (i : Instance) (fields : List (String × List ConvertedNode)) : ConvertedNode :=
  .mk (resolve (isRealized (fields.map (·.1))) i) fields

/-- The conversion of a node: nothing when its tag has no template, and otherwise an instance with
the next id and the children that could be converted. -/
def convertNode (c : Catalog) (n : Tree.Node) (counter : Counter) :
    Option ConvertedNode × Counter :=
  match c.templateForTag? n.tag with
  | none => (none, counter)
  | some t =>
    let (i, counter) := Instance.stamp t counter
    let (fields, counter) := fieldsInTurn (fun name counter =>
      let (children, counter) :=
        inTurn (fun child counter => convertNode c child.1 counter) (n.childrenOf name).attach counter
      (children.filterMap id, counter)) (Units.nodeFieldNames t.fields) counter
    (some (assemble (fillValues i n) fields), counter)
termination_by sizeOf n
decreasing_by exact Tree.Node.sizeOf_lt_of_mem_childrenOf child.2

/-- The conversion of the children in a field. -/
def convertChildren (c : Catalog) (n : Tree.Node) (name : String) (counter : Counter) :
    List ConvertedNode × Counter :=
  ((inTurn (convertNode c) (n.childrenOf name) counter).1.filterMap id,
    (inTurn (convertNode c) (n.childrenOf name) counter).2)

theorem inTurn_attach (f : α → Counter → β × Counter) (as : List α) (counter : Counter) :
    inTurn (fun a : { a // a ∈ as } => f a.1) as.attach counter = inTurn f as counter := by
  have key : ∀ (bs : List { a // a ∈ as }) (k : Counter),
      inTurn (fun a : { a // a ∈ as } => f a.1) bs k = inTurn f (bs.map Subtype.val) k := by
    intro bs
    induction bs with
    | nil => intro k; rfl
    | cons b bs ih => intro k; simp only [inTurn, List.map_cons, ih]
  rw [key, List.attach_map_subtype_val]

section Node

variable {c : Catalog} {n : Tree.Node}

theorem convertNode_of_none (h : c.templateForTag? n.tag = none) (counter : Counter) :
    convertNode c n counter = (none, counter) := by
  rw [convertNode]
  simp only [h]

theorem convertNode_of_some {t : Template} (h : c.templateForTag? n.tag = some t)
    (counter : Counter) :
    convertNode c n counter =
      let (i, counter) := Instance.stamp t counter
      let (fields, counter) :=
        fieldsInTurn (convertChildren c n) (Units.nodeFieldNames t.fields) counter
      (some (assemble (fillValues i n) fields), counter) := by
  rw [convertNode]
  simp only [h, inTurn_attach (convertNode c)]
  rfl

end Node

/-! ### The nodes that are visited -/

/-- The tag of the node has a template. -/
def hasTemplate (c : Catalog) (n : Tree.Node) : Bool :=
  (c.templateForTag? n.tag).isSome

/-- The nodes that conversion visits, each before those below it. Nothing below a node without a
template is visited. -/
def visits (c : Catalog) (n : Tree.Node) : List Tree.Node :=
  n :: match c.templateForTag? n.tag with
    | none => []
    | some t => (Units.nodeFieldNames t.fields).flatMap fun name =>
        (n.childrenOf name).attach.flatMap fun child => visits c child.1
termination_by sizeOf n
decreasing_by exact Tree.Node.sizeOf_lt_of_mem_childrenOf child.2

/-- The nodes that are visited below a field. -/
def visitsBelow (c : Catalog) (n : Tree.Node) (name : String) : List Tree.Node :=
  (n.childrenOf name).flatMap (visits c)

/-- The report on some visited nodes: how many have a template, and the tags of the others. -/
def reportOn (c : Catalog) (visited : List Tree.Node) : Report where
  converted := visited.countP (hasTemplate c)
  skipped := (visited.filter fun n => !hasTemplate c n).map (·.tag)

section Visits

variable {c : Catalog} {n : Tree.Node}

theorem visits_of_none (h : c.templateForTag? n.tag = none) : visits c n = [n] := by
  rw [visits]
  simp only [h]

theorem visits_of_some {t : Template} (h : c.templateForTag? n.tag = some t) :
    visits c n = n :: (Units.nodeFieldNames t.fields).flatMap (visitsBelow c n) := by
  rw [visits]
  simp only [h, List.flatMap_subtype, List.unattach_attach]
  rfl

/-- The reports on two parts of a visit as one. -/
def Report.and (r s : Report) : Report :=
  ⟨r.converted + s.converted, r.skipped ++ s.skipped⟩

@[simp] theorem Report.and_empty (r : Report) : r.and (reportOn c []) = r := by
  simp [Report.and, reportOn]

theorem Report.empty_and (r : Report) : Report.and {} r = r := by
  simp [Report.and]

theorem Report.and_append (r : Report) (as bs : List Tree.Node) :
    r.and (reportOn c (as ++ bs)) = (r.and (reportOn c as)).and (reportOn c bs) := by
  simp [Report.and, reportOn, Nat.add_assoc]

end Visits

/-! ### Delivering children to a frame -/

/-- The fields with some children added at the end of one of them. -/
def attachAll (name : String) (children : List ConvertedNode)
    (fields : List (String × List ConvertedNode)) : List (String × List ConvertedNode) :=
  children.foldl (fun fs child => ConvertedNode.attach name child fs) fields

/-- The frame with the outcome of converting a child, if there is one, added to a field. -/
def Frame.deliver (f : Frame) (name : String) (child : Option ConvertedNode) : Frame :=
  { f with children := attachAll name child.toList f.children }

theorem attach_last {name : String} {fields : List (String × List ConvertedNode)}
    (h : name ∉ fields.map (·.1)) (child : ConvertedNode) (cs : List ConvertedNode) :
    ConvertedNode.attach name child (fields ++ [(name, cs)]) = fields ++ [(name, cs ++ [child])] := by
  induction fields with
  | nil => simp [ConvertedNode.attach]
  | cons f fs ih =>
    obtain ⟨k, ds⟩ := f
    simp only [List.map_cons, List.mem_cons, not_or] at h
    rw [List.cons_append, ConvertedNode.attach, if_neg (Ne.symm h.1), ih h.2, List.cons_append]

theorem attach_new {name : String} {fields : List (String × List ConvertedNode)}
    (h : name ∉ fields.map (·.1)) (child : ConvertedNode) :
    ConvertedNode.attach name child fields = fields ++ [(name, [child])] := by
  induction fields with
  | nil => rfl
  | cons f fs ih =>
    obtain ⟨k, ds⟩ := f
    simp only [List.map_cons, List.mem_cons, not_or] at h
    rw [ConvertedNode.attach, if_neg (Ne.symm h.1), ih h.2, List.cons_append]

/-- Children that are added to a field which is not there yet make up that field, at the end. -/
theorem attachAll_new {name : String} {fields : List (String × List ConvertedNode)}
    (h : name ∉ fields.map (·.1)) (children : List ConvertedNode) :
    attachAll name children fields =
      fields ++ if children.isEmpty then [] else [(name, children)] := by
  cases children with
  | nil => simp [attachAll]
  | cons child rest =>
    have key : ∀ (ds cs : List ConvertedNode),
        attachAll name ds (fields ++ [(name, cs)]) = fields ++ [(name, cs ++ ds)] := by
      intro ds
      induction ds with
      | nil => intro cs; simp [attachAll]
      | cons d ds ih =>
        intro cs
        have ih := ih (cs ++ [d])
        simp only [attachAll, List.foldl_cons] at ih ⊢
        rw [attach_last h, ih, List.append_assoc, List.singleton_append]
    have hrest := key rest [child]
    simp only [attachAll, List.foldl_cons] at hrest ⊢
    rw [attach_new h, hrest]
    simp

/-! ### Steps of the machine -/

section Steps

variable {c : Catalog}

theorem runFrames_of_step {r s : Run} (h : step c r = some s) : runFrames c r = runFrames c s := by
  rw [runFrames]
  split
  · simp_all
  · rename_i s' hs
    obtain rfl : s = s' := by simpa [h] using hs
    rfl

theorem runFrames_of_nil {r : Run} (h : r.frames = []) : runFrames c r = r := by
  have hstep : step c r = none := by simp [step, h]
  rw [runFrames]
  split
  · rfl
  · simp_all

/-- Visiting `n` comes to delivering what it converts to. -/
def Delivers (c : Catalog) (n : Tree.Node) : Prop :=
  ∀ (name : String) (f : Frame) (fs : List Frame) (report : Report) (counter : Counter)
    (result : Option ConvertedNode),
    runFrames c (visit c name n ⟨f :: fs, report, counter, result⟩) =
      runFrames c ⟨f.deliver name (convertNode c n counter).1 :: fs,
        report.and (reportOn c (visits c n)), (convertNode c n counter).2, result⟩

/-- The children of a field are delivered one after the other. -/
theorem runFrames_children {ms : List Tree.Node} (h : ∀ m ∈ ms, Delivers c m) (name : String)
    (rest : List (String × Tree.Node)) (f : Frame) (fs : List Frame) (report : Report)
    (counter : Counter) (result : Option ConvertedNode) :
    runFrames c ⟨{ f with pending := ms.map (name, ·) ++ rest } :: fs, report, counter, result⟩ =
      runFrames c ⟨{ f with
          pending := rest
          children := attachAll name ((inTurn (convertNode c) ms counter).1.filterMap id)
            f.children } :: fs,
        report.and (reportOn c (ms.flatMap (visits c))),
        (inTurn (convertNode c) ms counter).2, result⟩ := by
  induction ms generalizing f report counter with
  | nil => simp [inTurn, attachAll]
  | cons m ms ih =>
    have ih := ih fun k hk => h k (List.mem_cons_of_mem m hk)
    let g : Frame := { f with pending := ms.map (name, ·) ++ rest }
    have hvisit : runFrames c ⟨{ f with pending := (m :: ms).map (name, ·) ++ rest } :: fs, report,
          counter, result⟩ =
        runFrames c (visit c name m ⟨g :: fs, report, counter, result⟩) :=
      runFrames_of_step rfl
    rw [hvisit, h m List.mem_cons_self]
    refine (ih (f.deliver name (convertNode c m counter).1) _ _).trans ?_
    rw [List.flatMap_cons, Report.and_append]
    simp only [inTurn, Frame.deliver]
    cases (convertNode c m counter).1 with
    | none => simp [attachAll]
    | some node => simp [attachAll]

/-- The fields are delivered one after the other, each at the end of those before it. -/
theorem runFrames_fields {n : Tree.Node} (h : ∀ name, ∀ m ∈ n.childrenOf name, Delivers c m)
    {names : List String} (hnames : names.Nodup) (f : Frame)
    (hnew : ∀ name ∈ names, name ∉ f.children.map (·.1)) (fs : List Frame) (report : Report)
    (counter : Counter) (result : Option ConvertedNode) :
    runFrames c ⟨{ f with
        pending := names.flatMap fun name => (n.childrenOf name).map (name, ·) } :: fs, report,
        counter, result⟩ =
      runFrames c ⟨{ f with
          pending := []
          children := f.children ++ (fieldsInTurn (convertChildren c n) names counter).1 } :: fs,
        report.and (reportOn c (names.flatMap (visitsBelow c n))),
        (fieldsInTurn (convertChildren c n) names counter).2, result⟩ := by
  induction names generalizing f report counter with
  | nil => simp [fieldsInTurn]
  | cons name names ih =>
    obtain ⟨hname, hnames⟩ := List.nodup_cons.1 hnames
    have hname' := hnew name List.mem_cons_self
    let children := (convertChildren c n name counter).1
    let g : Frame := { f with children := attachAll name children f.children }
    have hg : g.children = f.children ++ if children.isEmpty then [] else [(name, children)] :=
      attachAll_new hname' children
    have hnew' : ∀ k ∈ names, k ∉ g.children.map (·.1) := by
      intro k hk hmem
      rw [hg, List.map_append, List.mem_append] at hmem
      rcases hmem with hmem | hmem
      · exact hnew k (List.mem_cons_of_mem name hk) hmem
      · split at hmem
        · simp at hmem
        · obtain rfl : k = name := by simpa using hmem
          exact hname hk
    rw [List.flatMap_cons]
    refine (runFrames_children (h name) name _ f fs report counter result).trans ?_
    refine (ih hnames g hnew' _ (convertChildren c n name counter).2).trans ?_
    rw [List.flatMap_cons, Report.and_append, hg, List.append_assoc]
    simp only [fieldsInTurn]
    congr 5
    by_cases hempty : children.isEmpty = true
    · simp [children, hempty]
    · simp [children, hempty]

/-- Starting a node comes to a frame that has all of its children. -/
theorem runFrames_open {n : Tree.Node} {t : Template} (h : ∀ name, ∀ m ∈ n.childrenOf name, Delivers c m)
    (ht : c.templateForTag? n.tag = some t) (name : String) (fs : List Frame) (report : Report)
    (counter : Counter) (result : Option ConvertedNode) :
    runFrames c (visit c name n ⟨fs, report, counter, result⟩) =
      runFrames c ⟨⟨name, fillValues (Instance.stamp t counter).1 n, [],
          (fieldsInTurn (convertChildren c n) (Units.nodeFieldNames t.fields)
            (Instance.stamp t counter).2).1⟩ :: fs,
        report.and (reportOn c (visits c n)),
        (fieldsInTurn (convertChildren c n) (Units.nodeFieldNames t.fields)
          (Instance.stamp t counter).2).2, result⟩ := by
  let f : Frame := ⟨name, fillValues (Instance.stamp t counter).1 n, [], []⟩
  have hvisit : visit c name n ⟨fs, report, counter, result⟩ =
      ⟨{ f with pending := pendingOf t n } :: fs,
        report.and (reportOn c [n]), (Instance.stamp t counter).2, result⟩ := by
    simp [visit, ht, openFrame, Report.and, reportOn, hasTemplate, f]
  have hnodup : (Units.nodeFieldNames t.fields).Nodup := Units.nodup_distinct _
  rw [hvisit]
  refine (runFrames_fields h hnodup f (by simp [f]) fs _ _ result).trans ?_
  rw [visits_of_some ht, ← Report.and_append, List.singleton_append]
  rfl

/-- **The stack of frames works off one node.** By induction on the tree, whatever the frames around
it are. -/
theorem delivers (c : Catalog) (n : Tree.Node) : Delivers c n := by
  have h : ∀ name, ∀ m ∈ n.childrenOf name, Delivers c m := fun _ m hm => delivers c m
  intro name f fs report counter result
  cases ht : c.templateForTag? n.tag with
  | none =>
    rw [convertNode_of_none ht, visits_of_none ht]
    simp [visit, ht, Frame.deliver, attachAll, Report.and, reportOn, hasTemplate]
  | some t =>
    rw [runFrames_open h ht, convertNode_of_some ht]
    exact runFrames_of_step rfl
termination_by sizeOf n
decreasing_by exact Tree.Node.sizeOf_lt_of_mem_childrenOf hm

/-- **The whole run.** -/
theorem convert_eq (c : Catalog) (root : Tree.Node) (counter : Counter) :
    convert c root counter =
      (⟨(convertNode c root counter).1, reportOn c (visits c root)⟩,
        (convertNode c root counter).2) := by
  unfold convert
  cases ht : c.templateForTag? root.tag with
  | none =>
    rw [convertNode_of_none ht, visits_of_none ht, runFrames_of_nil (by simp [visit, ht])]
    simp [visit, ht, reportOn, hasTemplate]
  | some t =>
    rw [runFrames_open (fun _ m _ => delivers c m) ht, convertNode_of_some ht, Report.empty_and]
    rw [runFrames_of_step rfl, runFrames_of_nil rfl]
    rfl

end Steps

end SyntaxGraph.Conversion
