import SyntaxGraph.Proofs.Conversion.Meaning
import SyntaxGraph.Proofs.Converted
import SyntaxGraph.Proofs.Schema.Templates

/-!
# The ids of a conversion

Ids are taken when a node is started and the children are put together when it is complete, yet both
happen in one order: the ids of the converted tree, read in the order of `instances`, are exactly the
next ones of the counter. There are as many of them as the visit meets nodes with a template.
-/

namespace SyntaxGraph.Conversion

open Schema (Catalog)

/-- The number of nodes with a template that are visited. -/
def coverage (c : Catalog) (n : Tree.Node) : Nat :=
  (visits c n).countP (hasTemplate c)

/-- Some converted nodes have the next `number` ids of a counter, in the order of their instances. -/
structure Numbered (before : Counter) (nodes : List ConvertedNode) (after : Counter)
    (number : Nat) : Prop where
  ids : (nodes.flatMap (·.instances)).map (·.id) = before.take number
  counter : after = before.skip number

theorem Numbered.nil (counter : Counter) : Numbered counter [] counter 0 :=
  ⟨rfl, rfl⟩

theorem Numbered.append {before between after : Counter} {ns ms : List ConvertedNode} {i j : Nat}
    (hn : Numbered before ns between i) (hm : Numbered between ms after j) :
    Numbered before (ns ++ ms) after (i + j) := by
  obtain ⟨hn, rfl⟩ := hn
  obtain ⟨hm, rfl⟩ := hm
  refine ⟨?_, (Counter.skip_add before i j).symm⟩
  rw [List.flatMap_append, List.map_append, hn, hm, Counter.take_add]

section Ids

variable {c : Catalog}

theorem numbered_children {ms : List Tree.Node}
    (h : ∀ m ∈ ms, ∀ counter, Numbered counter (convertNode c m counter).1.toList
      (convertNode c m counter).2 (coverage c m)) (counter : Counter) :
    Numbered counter ((inTurn (convertNode c) ms counter).1.filterMap id)
      (inTurn (convertNode c) ms counter).2 ((ms.flatMap (visits c)).countP (hasTemplate c)) := by
  induction ms generalizing counter with
  | nil => exact .nil counter
  | cons m ms ih =>
    have hm := h m List.mem_cons_self counter
    have hms := ih (fun k hk => h k (List.mem_cons_of_mem m hk)) (convertNode c m counter).2
    have hsplit : (inTurn (convertNode c) (m :: ms) counter).1.filterMap id =
        (convertNode c m counter).1.toList ++
          (inTurn (convertNode c) ms (convertNode c m counter).2).1.filterMap id := by
      simp only [inTurn]
      cases (convertNode c m counter).1 <;> simp
    rw [List.flatMap_cons, List.countP_append, hsplit]
    exact hm.append hms

theorem numbered_fields {n : Tree.Node}
    (h : ∀ name, ∀ m ∈ n.childrenOf name, ∀ counter, Numbered counter
      (convertNode c m counter).1.toList (convertNode c m counter).2 (coverage c m))
    (names : List String) (counter : Counter) :
    Numbered counter ((fieldsInTurn (convertChildren c n) names counter).1.flatMap (·.2))
      (fieldsInTurn (convertChildren c n) names counter).2
      ((names.flatMap (visitsBelow c n)).countP (hasTemplate c)) := by
  induction names generalizing counter with
  | nil => exact .nil counter
  | cons name names ih =>
    have hname := numbered_children (h name) counter
    have hnames := ih (convertChildren c n name counter).2
    have hsplit : (fieldsInTurn (convertChildren c n) (name :: names) counter).1.flatMap (·.2) =
        (convertChildren c n name counter).1 ++ (fieldsInTurn (convertChildren c n) names
          (convertChildren c n name counter).2).1.flatMap (·.2) := by
      simp only [fieldsInTurn]
      split
      · rename_i hempty
        rw [List.isEmpty_iff.1 hempty, List.nil_append]
      · rfl
    rw [List.flatMap_cons, List.countP_append, hsplit]
    exact hname.append hnames

/-- **A conversion takes one id for each visited node with a template**, in the order of the
instances. -/
theorem numbered_convertNode (c : Catalog) (n : Tree.Node) (counter : Counter) :
    Numbered counter (convertNode c n counter).1.toList (convertNode c n counter).2
      (coverage c n) := by
  have h : ∀ name, ∀ m ∈ n.childrenOf name, ∀ counter, Numbered counter
      (convertNode c m counter).1.toList (convertNode c m counter).2 (coverage c m) :=
    fun _ m hm => numbered_convertNode c m
  cases ht : c.templateForTag? n.tag with
  | none =>
    have hzero : coverage c n = 0 := by simp [coverage, visits_of_none ht, hasTemplate, ht]
    rw [hzero, convertNode_of_none ht]
    exact .nil counter
  | some t =>
    have hfields := numbered_fields h (Units.nodeFieldNames t.fields) counter.fresh.2
    have hsucc : coverage c n =
        ((Units.nodeFieldNames t.fields).flatMap (visitsBelow c n)).countP (hasTemplate c) + 1 := by
      rw [coverage, visits_of_some ht, List.countP_cons_of_pos (by simp [hasTemplate, ht])]
    rw [hsucc, convertNode_of_some ht]
    refine ⟨?_, hfields.counter⟩
    simp only [Option.toList_some, List.flatMap_singleton, assemble, ConvertedNode.instances_eq,
      ConvertedNode.state, List.map_cons, id_resolve, id_fillValues, Counter.take]
    rw [← hfields.ids]
    rfl
termination_by sizeOf n
decreasing_by exact Tree.Node.sizeOf_lt_of_mem_childrenOf hm

variable {n : Tree.Node} {counter : Counter} {node : ConvertedNode}

theorem ids_of_convertNode (h : (convertNode c n counter).1 = some node) :
    node.instances.map (·.id) = counter.take (coverage c n) := by
  have := (numbered_convertNode c n counter).ids
  simpa [h] using this

theorem count_of_convertNode (h : (convertNode c n counter).1 = some node) :
    node.count = coverage c n := by
  have := congrArg List.length (ids_of_convertNode h)
  rwa [List.length_map, ConvertedNode.length_instances, Counter.length_take] at this

end Ids

/-- **Conversion is its recursive meaning.** The stack of frames gives the converted node, the counter
and the report of the visit. A converted root has as many instances as the report says and as ids were
taken, and its instances have the next ids of the counter in order, which are consecutive numbers
unless the counter wraps. -/
theorem convert_eq_convertNode (c : Catalog) (root : Tree.Node) (counter : Counter) :
    convert c root counter =
        (⟨(convertNode c root counter).1, reportOn c (visits c root)⟩,
          (convertNode c root counter).2) ∧
      ∀ node, (convert c root counter).1.root = some node →
        (convert c root counter).1.report.converted = node.count ∧
          (convert c root counter).2.next = counter.next + UInt64.ofNat node.count ∧
          (counter.next.toNat + node.count ≤ UInt64.size →
            node.instances.map (·.id.number.toNat) =
              List.range' counter.next.toNat node.count) := by
  refine ⟨convert_eq c root counter, ?_⟩
  intro node hnode
  rw [convert_eq] at hnode ⊢
  have hcount := count_of_convertNode hnode
  refine ⟨hcount.symm, ?_, ?_⟩
  · rw [(numbered_convertNode c root counter).counter, Counter.next_skip, hcount]
  · intro hwrap
    rw [hcount] at hwrap ⊢
    rw [← Counter.numbers_take hwrap, ← ids_of_convertNode hnode, List.map_map]
    rfl

/-- A schema with one kind of node, which holds any number of nodes. -/
def boxes : Schema.Document where
  nodes := [{ name := "Box", kinds := ["box"],
              fields := [.ofSpec { name := "Inside", declaredType := "SyntaxList<BoxSyntax>" }] }]

/-- A box with two boxes in it, and between them something that the schema does not have. -/
def boxTree : Tree.Node :=
  .mk "box" [("Inside", .nodes [.mk "box" [], .mk "lid" [], .mk "box" []])]

theorem convert_boxTree :
    ∃ node, (convert (.ofDocument boxes) boxTree ⟨7⟩).1.root = some node ∧
      (convert (.ofDocument boxes) boxTree ⟨7⟩).1.report = ⟨3, ["lid"]⟩ ∧ node.count = 3 ∧
      node.instances.map (·.id.number.toNat) = [7, 8, 9] := by
  obtain ⟨t, hbox, ht⟩ : ∃ t, (Catalog.ofDocument boxes).templateForTag? "box" = some t ∧
      Units.nodeFieldNames t.fields = ["Inside"] := by
    simp only [Catalog.templateForTag?_ofDocument]
    exact ⟨_, rfl, by decide⟩
  have hlid : (Catalog.ofDocument boxes).templateForTag? "lid" = none := by
    rw [Catalog.templateForTag?_ofDocument]
    rfl
  have hvisits : visits (.ofDocument boxes) boxTree =
      [boxTree, .mk "box" [], .mk "lid" [], .mk "box" []] := by
    have hempty : visits (.ofDocument boxes) (.mk "box" []) = [.mk "box" []] := by
      rw [visits_of_some hbox, ht]
      rfl
    have hskip : visits (.ofDocument boxes) (.mk "lid" []) = [.mk "lid" []] := visits_of_none hlid
    have hinside : boxTree.childrenOf "Inside" = [.mk "box" [], .mk "lid" [], .mk "box" []] := rfl
    rw [visits_of_some hbox, ht, List.flatMap_singleton, visitsBelow, hinside]
    simp [hempty, hskip]
  obtain ⟨heq, hids⟩ := convert_eq_convertNode (.ofDocument boxes) boxTree ⟨7⟩
  have hreport : (convert (.ofDocument boxes) boxTree ⟨7⟩).1.report = ⟨3, ["lid"]⟩ := by
    rw [heq, hvisits]
    simp [reportOn, hasTemplate, Tree.Node.tag, hbox, hlid, boxTree]
  have hroot : ∃ node, (convert (.ofDocument boxes) boxTree ⟨7⟩).1.root = some node := by
    rw [heq, convertNode_of_some hbox]
    exact ⟨_, rfl⟩
  obtain ⟨node, hnode⟩ := hroot
  obtain ⟨hcount, -, hnumbers⟩ := hids node hnode
  rw [hreport] at hcount
  rw [← hcount] at hnumbers
  exact ⟨node, hnode, hreport, hcount.symm, hnumbers (by decide)⟩

end SyntaxGraph.Conversion
