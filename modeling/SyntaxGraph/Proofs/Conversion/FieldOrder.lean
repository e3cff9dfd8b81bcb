import Mathlib.Data.List.Perm.Subperm
import SyntaxGraph.Proofs.Conversion.Declared
import SyntaxGraph.Proofs.Tree.Json
import SyntaxGraph.Synchronizer

/-!
# Conversion and the order of fields

Two trees are the same when, at every node, they have the same tag and the same slots up to order.
Since the fields of a node have distinct names, the slot of each name is then the same in both, and
so are the tags of the direct children, as a set. Conversion reads nothing else of a node: it asks
for slots by name, in the order of the schema, and it only asks whether a tag is among those of the
children. So the same trees are converted alike, down to ids and report.
-/

namespace SyntaxGraph.Tree

/-! ### The same trees, slot by slot -/

theorem sameNodes_iff {ns ms : List Node} :
    sameNodes ns ms = true ↔ List.Forall₂ (fun n m => n.same m = true) ns ms := by
  induction ns generalizing ms with
  | nil => cases ms <;> simp [sameNodes]
  | cons n ns ih => cases ms <;> simp [sameNodes, ih]

theorem sameFields_iff {fs gs : List (String × Slot)} :
    sameFields fs gs = true ↔
      ∀ f ∈ fs, ∃ slot, gs.lookup f.1 = some slot ∧ f.2.same slot = true := by
  induction fs with
  | nil => simp [sameFields]
  | cons f fs ih =>
    obtain ⟨name, slot⟩ := f
    rw [sameFields, Bool.and_eq_true, ih, List.forall_mem_cons]
    refine and_congr_left fun _ => ?_
    cases gs.lookup name <;> simp

/-- The slots hold the same tokens, and child nodes that are the same one by one. -/
theorem Slot.of_same {a b : Slot} (h : a.same b = true) :
    a.childTokens = b.childTokens ∧ a.tokenText = b.tokenText ∧
      List.Forall₂ (fun n m => n.same m = true) a.childNodes b.childNodes := by
  cases a <;> cases b <;>
    simp_all [Slot.same, childTokens, tokenText, childNodes, sameNodes_iff]

theorem Node.tag_of_same {n m : Node} (h : n.same m = true) : m.tag = n.tag := by
  obtain ⟨s, fs⟩ := n
  obtain ⟨t, gs⟩ := m
  rw [Node.same, Bool.and_eq_true, Bool.and_eq_true, beq_iff_eq] at h
  exact h.1.1.symm

/-- **The same nodes have the same slots by name.** By their number, the names of one are exactly
those of the other. -/
theorem Node.of_same {n m : Node} (hn : n.DistinctNames) (h : n.same m = true) :
    m.DistinctNames ∧
      ∀ name, Option.Rel (fun a b => a.same b = true) (n.field? name) (m.field? name) := by
  obtain ⟨s, fs⟩ := n
  obtain ⟨t, gs⟩ := m
  rw [Node.same, Bool.and_eq_true, Bool.and_eq_true, beq_iff_eq, beq_iff_eq] at h
  obtain ⟨⟨rfl, hlength⟩, hfields⟩ := h
  rw [sameFields_iff] at hfields
  have hsub : fs.map (·.1) ⊆ gs.map (·.1) := by
    intro name hname
    obtain ⟨f, hf, rfl⟩ := List.mem_map.1 hname
    obtain ⟨slot, hslot, -⟩ := hfields f hf
    exact List.mem_map.2 ⟨(f.1, slot), Table.mem_of_lookup hslot, rfl⟩
  have hperm : (fs.map (·.1)).Perm (gs.map (·.1)) :=
    (List.subperm_of_subset hn hsub).perm_of_length_le
      (by rw [List.length_map, List.length_map, Node.fields, hlength])
  refine ⟨hperm.nodup hn, fun name => ?_⟩
  by_cases hname : name ∈ fs.map (·.1)
  · obtain ⟨f, hf, rfl⟩ := List.mem_map.1 hname
    obtain ⟨slot, hslot, hsame⟩ := hfields f hf
    have hf' : fs.lookup f.1 = some f.2 := Table.lookup_of_mem hn hf
    simp only [field?, Node.fields, hf', hslot]
    exact .some hsame
  · have hname' : name ∉ gs.map (·.1) := fun hmem => hname (hperm.mem_iff.2 hmem)
    simp only [field?, Node.fields, Table.lookup_of_notMem hname, Table.lookup_of_notMem hname']
    exact .none

/-- What the slots of a node hold, by name. -/
theorem Node.mem_flatMap_fields {n : Node} (hn : n.DistinctNames) (held : Slot → List α) {x : α} :
    (x ∈ n.fields.flatMap fun f => held f.2) ↔
      ∃ name slot, n.field? name = some slot ∧ x ∈ held slot := by
  rw [List.mem_flatMap]
  constructor
  · rintro ⟨f, hf, hx⟩
    exact ⟨f.1, f.2, Table.lookup_of_mem hn hf, hx⟩
  · rintro ⟨name, slot, hslot, hx⟩
    exact ⟨(name, slot), Table.mem_of_lookup hslot, hx⟩

/-- The same nodes hold the same, if the same slots do. -/
theorem Node.mem_flatMap_of_same {n m : Node} (hn : n.DistinctNames) (h : n.same m = true)
    (held : Slot → List α) (hheld : ∀ a b : Slot, a.same b = true → held a = held b) (x : α) :
    (x ∈ n.fields.flatMap fun f => held f.2) ↔ x ∈ m.fields.flatMap fun f => held f.2 := by
  obtain ⟨hm, hslots⟩ := Node.of_same hn h
  rw [mem_flatMap_fields hn, mem_flatMap_fields hm]
  refine exists_congr fun name => ?_
  have hname := hslots name
  revert hname
  cases n.field? name <;> cases m.field? name <;> rintro ⟨⟩
  · simp
  · rename_i a b hab
    simp [hheld a b hab]

end SyntaxGraph.Tree

namespace SyntaxGraph.Conversion

open Schema (Catalog)

/-! ### The same trees agree -/

theorem any_congr_of_mem {as bs : List α} (h : ∀ a, a ∈ as ↔ a ∈ bs) (p : α → Bool) :
    as.any p = bs.any p := by
  rw [Bool.eq_iff_iff]
  simp only [List.any_eq_true, h]

section Same

variable {n m : Tree.Node}

theorem slotText_of_same (hn : n.DistinctNames) (h : n.same m = true) (name : String) :
    slotText n name = slotText m name := by
  have hslot := (Tree.Node.of_same hn h).2 name
  unfold slotText
  revert hslot
  cases n.field? name <;> cases m.field? name <;> rintro ⟨⟩
  · rfl
  · rename_i a b hab
    exact (Tree.Slot.of_same hab).2.1

theorem childrenOf_of_same (hn : n.DistinctNames) (h : n.same m = true) (name : String) :
    List.Forall₂ (fun n m => n.same m = true) (n.childrenOf name) (m.childrenOf name) := by
  have hslot := (Tree.Node.of_same hn h).2 name
  unfold Tree.Node.childrenOf
  revert hslot
  cases n.field? name <;> cases m.field? name <;> rintro ⟨⟩
  · exact .nil
  · rename_i a b hab
    exact (Tree.Slot.of_same hab).2.2

/-- The tags of the direct children come in another order, but they are the same tags. -/
theorem fieldEvidence_of_same (hn : n.DistinctNames) (h : n.same m = true) (f : FieldSpec) :
    fieldEvidence (.ofNode n) f = fieldEvidence (.ofNode m) f := by
  have htokens : ∀ tag, tag ∈ n.childTokenTags ↔ tag ∈ m.childTokenTags := by
    refine Tree.Node.mem_flatMap_of_same hn h (fun slot => slot.childTokens.map (·.tag)) ?_
    intro a b hab
    rw [(Tree.Slot.of_same hab).1]
  have hnodes : ∀ tag, tag ∈ n.childNodeTags ↔ tag ∈ m.childNodeTags := by
    refine Tree.Node.mem_flatMap_of_same hn h (fun slot => slot.childNodes.map (·.tag)) ?_
    intro a b hab
    rw [← List.forall₂_eq_eq_eq, List.forall₂_map_left_iff, List.forall₂_map_right_iff]
    exact (Tree.Slot.of_same hab).2.2.imp fun _ _ hsame => (Tree.Node.tag_of_same hsame).symm
  exact fieldEvidence_congr (fun _ => any_congr_of_mem htokens _) fun _ =>
    any_congr_of_mem hnodes _

/-- **Trees that are the same agree** in what conversion reads, whatever the catalog. By induction
on the tree. -/
theorem agree_of_same (c : Catalog) {n m : Tree.Node}
    (hn : n.Everywhere Tree.Node.DistinctNames) (h : n.same m = true) : Agree c n m := by
  have htag := Tree.Node.tag_of_same h
  cases ht : c.templateForTag? n.tag with
  | none => exact .skipped htag ht
  | some t =>
    refine .covered htag ht (fun name _ => slotText_of_same hn.here h name) (fun name _ => ?_)
      fun f _ => fieldEvidence_of_same hn.here h f
    have hall := childrenOf_of_same hn.here h name
    refine List.forall₂_iff_zip.2 ⟨hall.length_eq, fun hab => ?_⟩
    have hchild := (List.of_mem_zip hab).1
    have hlt := Tree.Node.sizeOf_lt_of_mem_childrenOf hchild
    exact agree_of_same c (hn.child hchild) (List.forall₂_zip hall hab)
termination_by sizeOf n

theorem convert_of_same (c : Catalog) (hn : n.Everywhere Tree.Node.DistinctNames)
    (h : n.same m = true) (counter : Counter) : convert c n counter = convert c m counter := by
  have hagree := agree_of_same c hn h
  rw [convert_eq, convert_eq, hagree.convertNode_eq, reportOn_congr hagree.tags_visits]

theorem toGraph_of_same (s : Synchronizer) (hn : n.Everywhere Tree.Node.DistinctNames)
    (h : n.same m = true) {source source' : String} (hsource : Tree.parse source = .ok n)
    (hsource' : Tree.parse source' = .ok m) (counter : Counter) :
    s.toGraph source counter = s.toGraph source' counter := by
  unfold Synchronizer.toGraph
  rcases s.catalog.get with ⟨_ | c, catalog⟩
  · rfl
  · simp only [hsource, hsource', convert_of_same c hn h]

end Same

/-- **The order of fields does not matter.** Trees that are the same up to the order of the fields
at each node have the same conversion: the same instances with the same ids, texts and selections,
the same children field by field, the same report, and the same counter after it. So texts that are
read as such trees come to the same graph and to the same emitted text. -/
theorem convert_eq_of_same (c : Catalog) {n m : Tree.Node}
    (hn : n.Everywhere Tree.Node.DistinctNames) (h : n.same m = true) (counter : Counter) :
    convert c n counter = convert c m counter ∧
      ∀ (s : Synchronizer) (source source' : String), Tree.parse source = .ok n →
        Tree.parse source' = .ok m →
          s.toGraph source counter = s.toGraph source' counter ∧
            s.roundTrip source counter = s.roundTrip source' counter := by
  refine ⟨convert_of_same c hn h counter, fun s source source' hsource hsource' => ?_⟩
  have hgraph := toGraph_of_same s hn h hsource hsource' counter
  refine ⟨hgraph, ?_⟩
  unfold Synchronizer.roundTrip
  rw [hgraph]

/-- A mark with a token, a note and two nodes inside, of which one has no template. The fields of
each node are put in order by `arrange`. -/
def notedMarks (arrange : List (String × Tree.Slot) → List (String × Tree.Slot)) : Tree.Node :=
  .mk "mark" (arrange [("Minus", .token { tag := "minus", text := "-" }),
    ("Inside", .nodes [
      .mk "mark" (arrange [("Plus", .token { tag := "plus", text := "+" }), ("Inside", .nodes [])]),
      .mk "lid" []]),
    ("Note", .token { tag := "remark", text := "?" })])

theorem distinct_notedMarks {arrange : List (String × Tree.Slot) → List (String × Tree.Slot)}
    (h : ∀ fields, (arrange fields).Perm fields) :
    (notedMarks arrange).Everywhere Tree.Node.DistinctNames := by
  -- one node at a time: the order matters neither for the names nor for what stands below
  have hnode : ∀ tag fields, (fields.map (·.1)).Nodup →
      (∀ f ∈ fields, ∀ n ∈ f.2.childNodes, n.Everywhere Tree.Node.DistinctNames) →
        (Tree.Node.mk tag (arrange fields)).Everywhere Tree.Node.DistinctNames := by
    intro tag fields hnames hbelow
    exact .intro (((h fields).map _).nodup_iff.2 hnames)
      fun f hf => hbelow f ((h fields).mem_iff.1 hf)
  have hlid : (Tree.Node.mk "lid" []).Everywhere Tree.Node.DistinctNames :=
    .intro (by simp [Tree.Node.DistinctNames, Tree.Node.fields]) (by simp [Tree.Node.fields])
  refine hnode _ _ (by simp) ?_
  simpa [Tree.Slot.childNodes, hlid] using hnode _ _ (by simp) (by simp [Tree.Slot.childNodes])

/-- Reversing the fields of all nodes changes nothing. -/
theorem convert_notedMarks :
    (notedMarks id).same (notedMarks List.reverse) = true ∧
      convert marks (notedMarks id) {} = convert marks (notedMarks List.reverse) {} ∧
      ({ catalog := .ofCatalog marks } : Synchronizer).roundTrip
          (notedMarks id).toJson.compact {} =
        ({ catalog := .ofCatalog marks } : Synchronizer).roundTrip
          (notedMarks List.reverse).toJson.compact {} := by
  have hsame : (notedMarks id).same (notedMarks List.reverse) = true := by
    simp [notedMarks, Tree.Node.same, Tree.sameFields, Tree.Slot.same, Tree.sameNodes,
      List.lookup_cons]
  have hid : (notedMarks id).Everywhere Tree.Node.DistinctNames :=
    distinct_notedMarks fun _ => .refl _
  have hreverse := distinct_notedMarks List.reverse_perm
  have hparse : ∀ t : Tree.Node, t.Everywhere Tree.Node.DistinctNames → t.tag = "mark" →
      Tree.parse t.toJson.compact = .ok t := by
    intro t ht htag
    have hplain : t.toJson.Plain fun _ => True := Tree.Node.plain_toJson ht
    rw [Tree.parse_of_read ht (Json.read_compact hplain), htag]
    rfl
  obtain ⟨hconvert, htexts⟩ := convert_eq_of_same marks hid hsame {}
  exact ⟨hsame, hconvert, (htexts _ _ _ (hparse _ hid rfl) (hparse _ hreverse rfl)).2⟩

end SyntaxGraph.Conversion
