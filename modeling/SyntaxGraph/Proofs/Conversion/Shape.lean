import SyntaxGraph.Proofs.Conversion.Numbering
import SyntaxGraph.Proofs.Conversion.Resolution

/-!
# The shape of a converted tree

Which fields a converted node has, and which children stand in them, is known from the tree alone:
the fields are those with a child that has a template, in the order of the schema, and the children
are the converted ones of the slot, whatever ids they were given. In particular no id and no field of
a node comes twice, as long as there are no more instances than ids.
-/

namespace SyntaxGraph.Conversion

open Schema (Catalog)

/-- A child in the slot of a name has a template. -/
def hasCoveredChild (c : Catalog) (n : Tree.Node) (name : String) : Bool :=
  (n.childrenOf name).any (hasTemplate c)

theorem flatMap_filter_eq {α β : Type} {p : α → Bool} {g : α → List β} {xs : List α}
    (h : ∀ x ∈ xs, p x = false → g x = []) : (xs.filter p).flatMap g = xs.flatMap g := by
  induction xs with
  | nil => rfl
  | cons x xs ih =>
    have ih := ih fun y hy => h y (List.mem_cons_of_mem _ hy)
    cases hx : p x with
    | true => simp [hx, ih]
    | false => simp [hx, ih, h x List.mem_cons_self hx]

section Shape

variable {c : Catalog}

theorem isSome_convertNode (c : Catalog) (n : Tree.Node) (counter : Counter) :
    (convertNode c n counter).1.isSome = hasTemplate c n := by
  unfold hasTemplate
  cases ht : c.templateForTag? n.tag with
  | none => rw [convertNode_of_none ht]; rfl
  | some t => rw [convertNode_of_some ht]; rfl

/-- The node is what some conversion of the tree node gives. -/
def Converts (c : Catalog) (n : Tree.Node) (node : ConvertedNode) : Prop :=
  ∃ counter, (convertNode c n counter).1 = some node

/-- The children of a slot that have a template are converted one by one. -/
theorem forall₂_inTurn (c : Catalog) (ms : List Tree.Node) (counter : Counter) :
    List.Forall₂ (Converts c) (ms.filter (hasTemplate c))
      ((inTurn (convertNode c) ms counter).1.filterMap id) := by
  induction ms generalizing counter with
  | nil => exact .nil
  | cons m ms ih =>
    have ih := ih (convertNode c m counter).2
    have hsome := isSome_convertNode c m counter
    simp only [inTurn]
    cases hnode : (convertNode c m counter).1 with
    | none =>
      rw [hnode] at hsome
      rw [List.filter_cons_of_neg (by simp [← hsome])]
      exact ih
    | some node =>
      rw [hnode] at hsome
      rw [List.filter_cons_of_pos hsome.symm]
      exact .cons ⟨counter, hnode⟩ ih

theorem isEmpty_convertChildren (c : Catalog) (n : Tree.Node) (name : String) (counter : Counter) :
    (convertChildren c n name counter).1.isEmpty = !hasCoveredChild c n name := by
  have hchildren : List.Forall₂ (Converts c) ((n.childrenOf name).filter (hasTemplate c))
      (convertChildren c n name counter).1 := forall₂_inTurn c (n.childrenOf name) counter
  cases hempty : (convertChildren c n name counter).1 with
  | nil =>
    rw [hempty, List.forall₂_nil_right_iff, List.filter_eq_nil_iff] at hchildren
    simpa [hasCoveredChild] using hchildren
  | cons node nodes =>
    rw [hempty] at hchildren
    obtain ⟨m, ms, -, -, hfilter⟩ := List.forall₂_cons_right_iff.1 hchildren
    have hm : m ∈ (n.childrenOf name).filter (hasTemplate c) := by simp [hfilter]
    obtain ⟨hmem, htemplate⟩ := List.mem_filter.1 hm
    have hany : hasCoveredChild c n name = true := List.any_eq_true.2 ⟨m, hmem, htemplate⟩
    simp [hany]

/-- The fields of a converted node are those with a child that has a template. -/
theorem keys_fieldsInTurn (c : Catalog) (n : Tree.Node) (names : List String) (counter : Counter) :
    (fieldsInTurn (convertChildren c n) names counter).1.map (·.1) =
      names.filter (hasCoveredChild c n) := by
  induction names generalizing counter with
  | nil => rfl
  | cons name names ih =>
    have hempty := isEmpty_convertChildren c n name counter
    simp only [fieldsInTurn, hempty]
    cases hname : hasCoveredChild c n name with
    | true => simp [hname, ih]
    | false => simp [hname, ih]

/-- The children of a field are the converted ones of the slot of its name. -/
theorem forall₂_lookup_fieldsInTurn (c : Catalog) (n : Tree.Node) {names : List String}
    {name : String} (h : name ∈ names) (counter : Counter) :
    List.Forall₂ (Converts c) ((n.childrenOf name).filter (hasTemplate c))
      (((fieldsInTurn (convertChildren c n) names counter).1.lookup name).getD []) := by
  cases hname : hasCoveredChild c n name with
  | false =>
    have hkey : name ∉ (fieldsInTurn (convertChildren c n) names counter).1.map (·.1) := by
      rw [keys_fieldsInTurn]
      simp [hname]
    have hfilter : (n.childrenOf name).filter (hasTemplate c) = [] := by
      rw [List.filter_eq_nil_iff]
      simpa [hasCoveredChild] using hname
    rw [Table.lookup_of_notMem hkey, hfilter]
    exact .nil
  | true =>
    induction names generalizing counter with
    | nil => simp at h
    | cons k names ih =>
      have hempty := isEmpty_convertChildren c n k counter
      simp only [fieldsInTurn, hempty]
      by_cases hk : name = k
      · subst hk
        simp only [hname, Bool.not_true, Bool.false_eq_true, if_false, List.lookup_cons_self,
          Option.getD_some]
        exact forall₂_inTurn c (n.childrenOf name) counter
      · have hmem : name ∈ names := (List.mem_cons.1 h).resolve_left hk
        have hne : (name == k) = false := by simpa using hk
        have ih := ih hmem (convertChildren c n k counter).2
        cases hasCoveredChild c n k with
        | false => simpa using ih
        | true => simpa [List.lookup_cons, hne] using ih

variable {n : Tree.Node} {t : Template} {counter : Counter} {node : ConvertedNode}

theorem keys_of_convertNode (ht : c.templateForTag? n.tag = some t)
    (h : (convertNode c n counter).1 = some node) :
    node.children.map (·.1) = (Units.nodeFieldNames t.fields).filter (hasCoveredChild c n) := by
  rw [convertNode_of_some ht] at h
  obtain rfl := Option.some.inj h
  exact keys_fieldsInTurn c n _ _

theorem forall₂_childrenOf (ht : c.templateForTag? n.tag = some t)
    (h : (convertNode c n counter).1 = some node) {name : String}
    (hname : name ∈ Units.nodeFieldNames t.fields) :
    List.Forall₂ (Converts c) ((n.childrenOf name).filter (hasTemplate c))
      (node.childrenOf name) := by
  rw [convertNode_of_some ht] at h
  obtain rfl := Option.some.inj h
  exact forall₂_lookup_fieldsInTurn c n hname _

/-- The units of a converted node are those of its template after three passes: the texts of the
slots, the choices by the tags of the children, and the choices by the fields with children. -/
theorem fields_of_convertNode (ht : c.templateForTag? n.tag = some t)
    (h : (convertNode c n counter).1 = some node) :
    node.state.fields =
      settleUnits (isRealized (node.children.map (·.1)))
        (settleUnits (looksLike (.ofNode n))
          (mapTexts (filledText n (Units.tokenFieldNames t.fields)) t.fields)) := by
  rw [convertNode_of_some ht] at h
  obtain rfl := Option.some.inj h
  simp only [assemble, ConvertedNode.state, ConvertedNode.children, fillValues, resolve_eq,
    fillTexts_eq, Instance.stamp]

/-- The fields of a converted node have distinct names. -/
theorem nodup_keys_of_convertNode (h : (convertNode c n counter).1 = some node) :
    (node.children.map (·.1)).Nodup := by
  cases ht : c.templateForTag? n.tag with
  | none => simp [convertNode_of_none ht] at h
  | some t =>
    rw [keys_of_convertNode ht h]
    exact (Units.nodup_distinct _).filter _

/-- The children of a converted node stand in the order of the node fields of the template. -/
theorem links_of_convertNode (ht : c.templateForTag? n.tag = some t)
    (h : (convertNode c n counter).1 = some node) :
    node.links = (Units.nodeFieldNames t.fields).flatMap fun name =>
      (node.childrenOf name).map (name, ·) := by
  have hkeys := keys_of_convertNode ht h
  have hpresent : ∀ f ∈ node.children, node.childrenOf f.1 = f.2 := by
    intro f hf
    rw [ConvertedNode.childrenOf, Table.lookup_of_mem (nodup_keys_of_convertNode h) hf]
    rfl
  have habsent : ∀ name ∈ Units.nodeFieldNames t.fields, hasCoveredChild c n name = false →
      (node.childrenOf name).map (name, ·) = [] := by
    intro name _ hname
    have hkey : name ∉ node.children.map (·.1) := by
      rw [hkeys]
      simp [hname]
    rw [ConvertedNode.childrenOf, Table.lookup_of_notMem hkey]
    rfl
  calc node.links
      = node.children.flatMap fun f => (node.childrenOf f.1).map (f.1, ·) :=
        List.flatMap_congr fun f hf => by rw [hpresent f hf]
    _ = (node.children.map (·.1)).flatMap fun name => (node.childrenOf name).map (name, ·) := by
        rw [List.flatMap_map]
    _ = ((Units.nodeFieldNames t.fields).filter (hasCoveredChild c n)).flatMap fun name =>
          (node.childrenOf name).map (name, ·) := by rw [hkeys]
    _ = (Units.nodeFieldNames t.fields).flatMap fun name =>
          (node.childrenOf name).map (name, ·) := flatMap_filter_eq habsent

/-- The children of a converted node are conversions of children in the slots. -/
theorem exists_of_mem_kids (h : (convertNode c n counter).1 = some node) {kid : ConvertedNode}
    (hkid : kid ∈ node.kids) : ∃ name, ∃ m ∈ n.childrenOf name, Converts c m kid := by
  cases ht : c.templateForTag? n.tag with
  | none => simp [convertNode_of_none ht] at h
  | some t =>
    rw [ConvertedNode.kids_eq_map_links] at hkid
    obtain ⟨l, hl, rfl⟩ := List.mem_map.1 hkid
    have hchild : l.2 ∈ node.childrenOf l.1 := by
      rw [ConvertedNode.childrenOf_eq (nodup_keys_of_convertNode h)]
      exact List.mem_map_of_mem (List.mem_filter.2 ⟨hl, by simp⟩)
    have hname : l.1 ∈ Units.nodeFieldNames t.fields := by
      have hkey : l.1 ∈ node.children.map (·.1) := by
        obtain ⟨f, hf, hlf⟩ := List.mem_flatMap.1 hl
        obtain ⟨x, -, rfl⟩ := List.mem_map.1 hlf
        exact List.mem_map_of_mem hf
      rw [keys_of_convertNode ht h] at hkey
      exact List.mem_of_mem_filter hkey
    have hall := forall₂_childrenOf ht h hname
    obtain ⟨i, hi, hget⟩ := List.getElem_of_mem hchild
    have hi' : i < ((n.childrenOf l.1).filter (hasTemplate c)).length := by
      rw [hall.length_eq]
      exact hi
    refine ⟨l.1, ((n.childrenOf l.1).filter (hasTemplate c))[i], ?_, ?_⟩
    · exact List.mem_of_mem_filter (List.getElem_mem hi')
    · have := hall.get hi' hi
      rwa [List.get_eq_getElem, List.get_eq_getElem, hget] at this

/-- Every node of a converted tree is a conversion of some tree node. -/
theorem converts_of_mem_subtrees {n : Tree.Node} {node : ConvertedNode} (h : Converts c n node) :
    ∀ m ∈ node.subtrees, ∃ k, Converts c k m := by
  intro m hm
  rw [ConvertedNode.subtrees_eq] at hm
  rcases List.mem_cons.1 hm with rfl | hm
  · exact ⟨n, h⟩
  · obtain ⟨kid, hkid, hm⟩ := List.mem_flatMap.1 hm
    obtain ⟨counter, hnode⟩ := h
    obtain ⟨name, child, hchild, hk⟩ := exists_of_mem_kids hnode hkid
    have := Tree.Node.sizeOf_lt_of_mem_childrenOf hchild
    exact converts_of_mem_subtrees hk m hm
termination_by sizeOf n

theorem nodup_keys_subtrees (h : (convertNode c n counter).1 = some node) :
    ∀ m ∈ node.subtrees, (m.children.map (·.1)).Nodup := by
  intro m hm
  obtain ⟨k, counter', hk⟩ := converts_of_mem_subtrees ⟨counter, h⟩ m hm
  exact nodup_keys_of_convertNode hk

/-- The instance of a converted node has the node fields of the template. -/
theorem nodeFields_of_convertNode (ht : c.templateForTag? n.tag = some t)
    (h : (convertNode c n counter).1 = some node) :
    node.state.nodeFields = Units.nodeFields t.fields := by
  refine nodeFields_congr ?_
  rw [fields_of_convertNode ht h, bare_settleUnits, bare_settleUnits, bare_mapTexts]

/-- The children of a converted node stand in node fields of its instance. -/
theorem hasNodeField_of_mem_children (h : (convertNode c n counter).1 = some node)
    {f : String × List ConvertedNode} (hf : f ∈ node.children) :
    node.state.hasNodeField f.1 = true := by
  cases ht : c.templateForTag? n.tag with
  | none => simp [convertNode_of_none ht] at h
  | some t =>
    have hkey : f.1 ∈ node.children.map (·.1) := List.mem_map_of_mem hf
    rw [keys_of_convertNode ht h] at hkey
    obtain ⟨spec, hspec, hname⟩ :=
      List.mem_map.1 (Units.mem_distinct.1 (List.mem_of_mem_filter hkey))
    rw [Instance.hasNodeField, nodeFields_of_convertNode ht h]
    exact List.any_eq_true.2 ⟨spec, hspec, by simpa using hname⟩

/-- **A converted tree has no id and no field of a node twice**, if there are enough ids. -/
theorem simple_of_convertNode (hids : coverage c n ≤ UInt64.size)
    (h : (convertNode c n counter).1 = some node) : node.Simple where
  ids := by
    have hnodup : (node.instances.map (·.id)).Nodup := by
      rw [ids_of_convertNode h]
      exact Counter.nodup_take hids
    rwa [ConvertedNode.instances, List.map_map] at hnodup
  keys := nodup_keys_subtrees h

end Shape

end SyntaxGraph.Conversion
