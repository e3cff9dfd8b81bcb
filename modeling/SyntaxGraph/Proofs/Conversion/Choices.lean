import SyntaxGraph.Proofs.Conversion.Paths
import SyntaxGraph.Proofs.Conversion.Shape

/-!
# The choices of a converted tree

The decisions of a round are made on one forest and applied one after the other to others. They may
be applied in any order all the same: their paths are distinct, each addresses a choice of the forest,
and whatever was decided before, it still does.

So the selection of every choice of a converted node is known from the template and the tree node:
the first alternative with a field that has converted children, or else the first that the tags of
the direct children speak for, or else the selection of the template.
-/

namespace SyntaxGraph.Conversion

open Schema (Catalog)
open SyntaxGraph.Units (unitAt? selectedAt?)

/-! ### The paths of decisions -/

section Paths

variable {accept : FieldUnit → Bool}

mutual

theorem exists_of_mem_unitDecisions : ∀ {u : FieldUnit} {d : List Nat × Nat},
    d ∈ unitDecisions accept [] u → ∃ k, (u.below? d.1).bind FieldUnit.selected? = some k
  | .single f v, d, h => by simp [unitDecisions] at h
  | .choice n o cs i, d, h => by
    rw [unitDecisions, List.mem_append] at h
    rcases h with h | h
    · obtain ⟨j, -, rfl⟩ := Option.map_eq_some_iff.1 (Option.mem_toList.1 h)
      exact ⟨i, rfl⟩
    · obtain ⟨j, path, k, hpath, hk⟩ := exists_of_mem_decisionsFrom h
      rw [Units.selectedAt?_eq] at hk
      rw [hpath, Nat.zero_add]
      exact ⟨k, hk⟩
  | .sequence cs, d, h => by
    rw [unitDecisions] at h
    obtain ⟨j, path, k, hpath, hk⟩ := exists_of_mem_decisionsFrom h
    rw [Units.selectedAt?_eq] at hk
    rw [hpath, Nat.zero_add]
    exact ⟨k, hk⟩

/-- A decision for units at the positions from `i` on is at a choice of one of them. -/
theorem exists_of_mem_decisionsFrom : ∀ {i : Nat} {us : List FieldUnit} {d : List Nat × Nat},
    d ∈ decisionsFrom accept [] i us →
      ∃ j path k, d.1 = (i + j) :: path ∧ selectedAt? us (j :: path) = some k
  | i, [], d, h => by simp [decisionsFrom] at h
  | i, u :: us, d, h => by
    rw [decisionsFrom, List.nil_append, unitDecisions_cons, List.mem_append] at h
    rcases h with h | h
    · obtain ⟨e, he, rfl⟩ := List.mem_map.1 h
      obtain ⟨k, hk⟩ := exists_of_mem_unitDecisions he
      refine ⟨0, e.1, k, rfl, ?_⟩
      rw [Units.selectedAt?_eq, Units.unitAt?_cons]
      exact hk
    · obtain ⟨j, path, k, hpath, hk⟩ := exists_of_mem_decisionsFrom h
      refine ⟨j + 1, path, k, ?_, ?_⟩
      · rw [hpath, Nat.add_right_comm, Nat.add_assoc]
      · rw [Units.selectedAt?_eq, Units.unitAt?_cons] at hk ⊢
        exact hk

end

/-- **Every decision is at a choice.** -/
theorem isSome_selectedAt?_of_mem_decisions {us : List FieldUnit} {d : List Nat × Nat}
    (h : d ∈ decisions accept us) : (selectedAt? us d.1).isSome = true := by
  obtain ⟨j, path, k, hpath, hk⟩ := exists_of_mem_decisionsFrom h
  rw [hpath, Nat.zero_add, hk]
  rfl

mutual

theorem nodup_unitDecisions : ∀ u : FieldUnit, ((unitDecisions accept [] u).map (·.1)).Nodup
  | .single f v => by simp [unitDecisions]
  | .choice n o cs i => by
    have hcs := nodup_decisionsFrom 0 cs
    rw [unitDecisions, List.map_append]
    cases cs.findIdx? accept with
    | none => exact hcs
    | some j =>
      refine List.nodup_cons.2 ⟨?_, hcs⟩
      intro hmem
      obtain ⟨d, hd, hpath⟩ := List.mem_map.1 hmem
      exact ne_nil_of_mem_decisionsFrom accept hd hpath
  | .sequence cs => by
    rw [unitDecisions]
    exact nodup_decisionsFrom 0 cs

theorem nodup_decisionsFrom : ∀ (i : Nat) (us : List FieldUnit),
    ((decisionsFrom accept [] i us).map (·.1)).Nodup
  | i, [] => by simp [decisionsFrom]
  | i, u :: us => by
    rw [decisionsFrom, List.nil_append, unitDecisions_cons, List.map_append, List.map_map]
    refine List.nodup_append.2 ⟨?_, nodup_decisionsFrom (i + 1) us, ?_⟩
    · have hu := nodup_unitDecisions u
      have hmap : (unitDecisions accept [] u).map (Prod.fst ∘ fun d => (i :: d.1, d.2)) =
          ((unitDecisions accept [] u).map (·.1)).map (i :: ·) := by
        rw [List.map_map]
        rfl
      rw [hmap]
      exact hu.map fun p q hpq => (List.cons.inj hpq).2
    · -- the paths of later units begin with later positions
      rintro p hp q hq rfl
      obtain ⟨d, -, hd⟩ := List.mem_map.1 hp
      obtain ⟨e, he, hpath⟩ := List.mem_map.1 hq
      obtain ⟨j, path, k, hlater, -⟩ := exists_of_mem_decisionsFrom he
      have hhead : i = i + 1 + j := (List.cons.inj (hd.trans (hpath.symm.trans hlater))).1
      omega

end

/-- No two decisions are at the same path. -/
theorem nodup_decisions (us : List FieldUnit) : ((decisions accept us).map (·.1)).Nodup :=
  nodup_decisionsFrom 0 us

end Paths

/-! ### The order of decisions -/

section Order

variable {accept : FieldUnit → Bool}

theorem isSome_selectedAt?_foldl (ds : List (List Nat × Nat)) (us : List FieldUnit) (q : List Nat) :
    (selectedAt? (ds.foldl withDecision us) q).isSome = (selectedAt? us q).isSome := by
  induction ds generalizing us with
  | nil => rfl
  | cons d ds ih => rw [List.foldl_cons, ih, isSome_selectedAt?_withDecision]

/-- **A decision never fails**, whatever was decided before it. -/
theorem isSome_withChoice?_of_mem_decisions {i : Instance} {d : List Nat × Nat}
    (h : d ∈ decisions accept i.fields) (before : List (List Nat × Nat)) :
    ((before.foldl applyDecision i).withChoice? d.1 d.2).isSome = true := by
  rw [foldl_applyDecision, Instance.withChoice?, Option.isSome_map, isSome_withChoice?,
    isSome_selectedAt?_foldl]
  exact isSome_selectedAt?_of_mem_decisions h

open scoped List in
/-- **Decisions may be applied in any order.** -/
theorem foldl_applyDecision_of_perm {i : Instance} {ds : List (List Nat × Nat)}
    (h : ds ~ decisions accept i.fields) : ds.foldl applyDecision i = resolve accept i := by
  have hnodup := @nodup_decisions accept i.fields
  rw [resolve, foldl_applyDecision, foldl_applyDecision]
  congr 1
  refine (h.symm.foldl_eq' ?_ i.fields).symm
  rintro ⟨p, j⟩ hp ⟨q, k⟩ hq us
  by_cases hpq : p = q
  · have heq : (p, j) = (q, k) := List.inj_on_of_nodup_map hnodup hp hq hpq
    rw [heq]
  · exact withDecision_comm hpq us j k

end Order

/-! ### Where converted nodes come from -/

section Origins

variable {c : Catalog} {n : Tree.Node} {t : Template} {counter : Counter} {node : ConvertedNode}

theorem kids_eq_flatMap_childrenOf (hkeys : (node.children.map (·.1)).Nodup) :
    node.kids = (node.children.map (·.1)).flatMap node.childrenOf := by
  rw [ConvertedNode.kids, List.flatMap_map]
  refine List.flatMap_congr fun f hf => ?_
  rw [ConvertedNode.childrenOf, Table.lookup_of_mem hkeys hf, Option.getD_some]

/-- The children of a converted node are the conversions of the covered children in its slots. -/
theorem forall₂_kids (ht : c.templateForTag? n.tag = some t)
    (h : (convertNode c n counter).1 = some node) :
    List.Forall₂ (Converts c)
      ((Units.nodeFieldNames t.fields).flatMap fun name => (n.childrenOf name).filter (hasTemplate c))
      node.kids := by
  have hnames : ∀ names ⊆ Units.nodeFieldNames t.fields, List.Forall₂ (Converts c)
      (names.flatMap fun name => (n.childrenOf name).filter (hasTemplate c))
      ((names.filter (hasCoveredChild c n)).flatMap node.childrenOf) := by
    intro names hsub
    induction names with
    | nil => exact .nil
    | cons name names ih =>
      obtain ⟨hname, hsub⟩ := List.cons_subset.1 hsub
      have hchildren := forall₂_childrenOf ht h hname
      rw [List.flatMap_cons]
      cases hcovered : hasCoveredChild c n name with
      | true =>
        rw [List.filter_cons_of_pos hcovered, List.flatMap_cons]
        exact List.rel_append hchildren (ih hsub)
      | false =>
        have hnone : (n.childrenOf name).filter (hasTemplate c) = [] := by
          rw [List.filter_eq_nil_iff]
          simpa [hasCoveredChild] using hcovered
        rw [List.filter_cons_of_neg (by simp [hcovered]), hnone, List.nil_append]
        exact ih hsub
  rw [kids_eq_flatMap_childrenOf (nodup_keys_of_convertNode h), keys_of_convertNode ht h]
  exact hnames _ (List.Subset.refl _)

/-- The covered nodes below some children are those below the covered children. -/
theorem filter_flatMap_visits (c : Catalog) (ms : List Tree.Node) :
    (ms.flatMap (visits c)).filter (hasTemplate c) =
      (ms.filter (hasTemplate c)).flatMap fun m => (visits c m).filter (hasTemplate c) := by
  induction ms with
  | nil => rfl
  | cons m ms ih =>
    rw [List.flatMap_cons, List.filter_append, ih]
    cases hm : c.templateForTag? m.tag with
    | none =>
      have huncovered : hasTemplate c m = false := by simp [hasTemplate, hm]
      simp [visits_of_none hm, huncovered]
    | some t =>
      have hcovered : hasTemplate c m = true := by simp [hasTemplate, hm]
      rw [List.filter_cons_of_pos hcovered, List.flatMap_cons]

theorem filter_visits_of_some (ht : c.templateForTag? n.tag = some t) :
    (visits c n).filter (hasTemplate c) =
      n :: ((Units.nodeFieldNames t.fields).flatMap fun name =>
        (n.childrenOf name).filter (hasTemplate c)).flatMap fun m =>
          (visits c m).filter (hasTemplate c) := by
  have hcovered : hasTemplate c n = true := by simp [hasTemplate, ht]
  rw [visits_of_some ht, List.filter_cons_of_pos hcovered, List.filter_flatMap, List.flatMap_assoc]
  congr 2
  funext name
  exact filter_flatMap_visits c (n.childrenOf name)

/-- **The nodes of a converted tree are, in order, conversions of the visited nodes that have a
template.** By induction on the tree. -/
theorem forall₂_subtrees (n : Tree.Node) (node : ConvertedNode) (h : Converts c n node) :
    List.Forall₂ (Converts c) ((visits c n).filter (hasTemplate c)) node.subtrees := by
  obtain ⟨counter, hnode⟩ := h
  cases ht : c.templateForTag? n.tag with
  | none => simp [convertNode_of_none ht] at hnode
  | some t =>
    rw [filter_visits_of_some ht, ConvertedNode.subtrees_eq]
    refine .cons ⟨counter, hnode⟩ ?_
    have hsmaller : ∀ m ∈ (Units.nodeFieldNames t.fields).flatMap fun name =>
        (n.childrenOf name).filter (hasTemplate c), sizeOf m < sizeOf n := by
      intro m hm
      obtain ⟨name, -, hm⟩ := List.mem_flatMap.1 hm
      exact Tree.Node.sizeOf_lt_of_mem_childrenOf (List.mem_of_mem_filter hm)
    refine List.rel_flatMap
      ((List.forall₂_and_left _ _).2 ⟨hsmaller, forall₂_kids ht hnode⟩) ?_
    rintro m kid ⟨hlt, hkid⟩
    exact forall₂_subtrees m kid hkid
termination_by sizeOf n

end Origins

/-! ### The selections of a converted tree -/

/-- The alternative that a choice of a tree node ends with: the first with a node field, at any depth,
among `fields`; or else the first that the tags of the direct children speak for; or else `own`. -/
def finalAlternative (n : Tree.Node) (fields : List String) (alternatives : List FieldUnit)
    (own : Nat) : Nat :=
  ((alternatives.findIdx? fun u => decide (∃ f ∈ Units.nodeFields [u], f.name ∈ fields)).or
    (alternatives.findIdx? fun u => decide (evidence (.ofNode n) u = some true))).getD own

theorem isRealized_eq_decide (fields : List String) (u : FieldUnit) :
    isRealized fields u = decide (∃ f ∈ Units.nodeFields [u], f.name ∈ fields) := by
  rw [Bool.eq_iff_iff, isRealized, List.any_eq_true, decide_eq_true_iff]
  simp only [List.contains_iff_mem]

theorem looksLike_eq_decide (tags : ChildTags) (u : FieldUnit) :
    looksLike tags u = decide (evidence tags u = some true) := by
  rw [Bool.eq_iff_iff, looksLike, beq_iff_eq, decide_eq_true_iff]

section Selections

variable {c : Catalog} {n : Tree.Node} {t : Template} {counter : Counter} {node : ConvertedNode}

/-- The instance of a converted node is one of the template of the tree node. -/
theorem template_of_convertNode (ht : c.templateForTag? n.tag = some t)
    (h : (convertNode c n counter).1 = some node) : node.state.template = t := by
  rw [convertNode_of_some ht] at h
  obtain rfl := Option.some.inj h
  simp only [assemble, ConvertedNode.state, fillValues, resolve_eq, fillTexts_eq, Instance.stamp]

/-- **The selection of a choice of a converted node.** The second round looks at the units that the
first one has settled, but what it asks of them is decided by their bare form. -/
theorem selectedAt?_of_convertNode (ht : c.templateForTag? n.tag = some t)
    (h : (convertNode c n counter).1 = some node) {path : List Nat} {name : Option String}
    {optional : Bool} {alternatives : List FieldUnit} {own : Nat}
    (hat : unitAt? t.fields path = some (.choice name optional alternatives own)) :
    node.state.selectedAt? path =
      some (finalAlternative n (node.children.map (·.1)) alternatives own) := by
  have hfirst : alternatives.findIdx? (looksLike (.ofNode n)) =
      alternatives.findIdx? fun u => decide (evidence (.ofNode n) u = some true) :=
    findIdx?_congr fun u _ => looksLike_eq_decide (.ofNode n) u
  have hsecond : alternatives.findIdx? (isRealized (node.children.map (·.1))) =
      alternatives.findIdx? fun u =>
        decide (∃ f ∈ Units.nodeFields [u], f.name ∈ node.children.map (·.1)) :=
    findIdx?_congr fun u _ => isRealized_eq_decide (node.children.map (·.1)) u
  rw [Instance.selectedAt?, fields_of_convertNode ht h, Units.selectedAt?_eq, unitAt?_settleUnits,
    unitAt?_settleUnits, unitAt?_mapTexts, hat]
  simp only [Option.map_some, Option.bind_some, mapUnitTexts, settleUnit, FieldUnit.selected?,
    finalAlternative, findIdx?_looksLike_mapTexts, findIdx?_isRealized_settleUnits]
  rw [hfirst, hsecond, Option.getD_or]

end Selections

open scoped List in
/-- **Choices are resolved exactly.** The nodes of a converted tree belong, in order, to the visited
tree nodes that have a template. For every choice of the template, wherever it stands, the instance
selects the first alternative with a node field that has converted children, or else the first one
that the tags of the direct children speak for, or else what the template selects.

The decisions of any round on any instance may be applied in any order, and none of them ever meets a
path that does not lead to a choice. -/
theorem choices_convert (c : Catalog) (root : Tree.Node) (counter : Counter) :
    (∀ converted, (convert c root counter).1.root = some converted →
      List.Forall₂ (fun n node => ∃ t, c.templateForTag? n.tag = some t ∧ node.state.template = t ∧
          ∀ path name optional alternatives own,
            unitAt? t.fields path = some (.choice name optional alternatives own) →
            node.state.selectedAt? path =
              some (finalAlternative n (node.children.map (·.1)) alternatives own))
        ((visits c root).filter (hasTemplate c)) converted.subtrees) ∧
    ∀ (accept : FieldUnit → Bool) (i : Instance) (ds : List (List Nat × Nat)),
      ds ~ decisions accept i.fields →
        ds.foldl applyDecision i = resolve accept i ∧
        ∀ before d after, ds = before ++ d :: after →
          ((before.foldl applyDecision i).withChoice? d.1 d.2).isSome = true := by
  refine ⟨fun converted hroot => ?_, fun accept i ds hds => ⟨foldl_applyDecision_of_perm hds, ?_⟩⟩
  · rw [convert_eq] at hroot
    refine (forall₂_subtrees root converted ⟨counter, hroot⟩).imp fun n node hnode => ?_
    obtain ⟨k, hnode⟩ := hnode
    cases ht : c.templateForTag? n.tag with
    | none => simp [convertNode_of_none ht] at hnode
    | some t =>
      refine ⟨t, rfl, template_of_convertNode ht hnode, fun path name optional alternatives own => ?_⟩
      exact selectedAt?_of_convertNode ht hnode
  · rintro before d after rfl
    exact isSome_withChoice?_of_mem_decisions (hds.mem_iff.1 (by simp)) before

/-- A fork has a mark and more forks to its left, or a note in their place; or one fork to its
right. -/
def fork : Template where
  name := "Fork"
  kinds := ["fork"]
  fields := [.choice none false
    [.sequence
      [.ofSpec { name := "Mark", declaredType := "SyntaxToken", kinds := ["plus"] },
        .choice none false
          [.ofSpec { name := "Note", declaredType := "SyntaxToken", kinds := ["note"] },
            .ofSpec { name := "Left", declaredType := "SyntaxList<ForkSyntax>" }] 0],
      .ofSpec { name := "Right", declaredType := "ForkSyntax" }] 0]

/-- A fork with a mark and a fork to its right. -/
def forkTree : Tree.Node :=
  .mk "fork" [("Mark", .token { tag := "plus", text := "+" }), ("Right", .node (.mk "fork" []))]

/-- The mark speaks for the first alternative, the converted fork decides for the second; the choice
below the first is resolved all the same. The two decisions of the first round can change places. -/
theorem choices_forkTree :
    (∃ node, (convert (.ofDocument { nodes := [fork] }) forkTree ⟨7⟩).1.root = some node ∧
      node.state.selectedAt? [0] = some 1 ∧ node.state.selectedAt? [0, 0, 1] = some 1) ∧
    decisions (looksLike (.ofNode forkTree)) fork.fields = [([0], 0), ([0, 0, 1], 1)] ∧
    [([0, 0, 1], 1), ([0], 0)].foldl applyDecision ⟨⟨7⟩, fork, fork.fields⟩ =
      resolve (looksLike (.ofNode forkTree)) ⟨⟨7⟩, fork, fork.fields⟩ := by
  obtain ⟨hselections, horder⟩ := choices_convert (.ofDocument { nodes := [fork] }) forkTree ⟨7⟩
  have hfork : (Catalog.ofDocument { nodes := [fork] }).templateForTag? "fork" = some fork := by
    rw [Catalog.templateForTag?_ofDocument]
    rfl
  have hdecisions : decisions (looksLike (.ofNode forkTree)) fork.fields =
      [([0], 0), ([0, 0, 1], 1)] := by decide
  refine ⟨?_, hdecisions, (horder (looksLike (.ofNode forkTree)) ⟨⟨7⟩, fork, fork.fields⟩ _ ?_).1⟩
  · obtain ⟨node, hnode⟩ : ∃ node,
        (convertNode (.ofDocument { nodes := [fork] }) forkTree ⟨7⟩).1 = some node := by
      rw [convertNode_of_some hfork]
      exact ⟨_, rfl⟩
    have hroot : (convert (.ofDocument { nodes := [fork] }) forkTree ⟨7⟩).1.root = some node := by
      rw [convert_eq, hnode]
    have hkeys : node.children.map (·.1) = ["Right"] := by
      have hnames : Units.nodeFieldNames fork.fields = ["Left", "Right"] := by decide
      have hleft : hasCoveredChild (.ofDocument { nodes := [fork] }) forkTree "Left" = false := rfl
      have hright : hasCoveredChild (.ofDocument { nodes := [fork] }) forkTree "Right" = true := by
        have hchildren : forkTree.childrenOf "Right" = [.mk "fork" []] := rfl
        simp [hasCoveredChild, hchildren, hasTemplate, Tree.Node.tag, hfork]
      rw [keys_of_convertNode hfork hnode, hnames]
      simp [hleft, hright]
    have hall := hselections node hroot
    rw [filter_visits_of_some hfork, ConvertedNode.subtrees_eq, List.forall₂_cons] at hall
    obtain ⟨⟨t, ht, -, hselected⟩, -⟩ := hall
    obtain rfl : fork = t := Option.some.inj (hfork.symm.trans ht)
    rw [hkeys] at hselected
    refine ⟨node, hroot, ?_, ?_⟩
    · rw [hselected [0] _ _ _ _ rfl]
      decide
    · rw [hselected [0, 0, 1] _ _ _ _ rfl]
      decide
  · rw [hdecisions]
    exact List.Perm.swap _ _ _

end SyntaxGraph.Conversion
