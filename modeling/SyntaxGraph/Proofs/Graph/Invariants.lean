import SyntaxGraph.Proofs.Conversion.Shape
import SyntaxGraph.Proofs.Graph.Edits
import SyntaxGraph.Proofs.Graph.OfConverted

/-!
# What edits keep true of a graph

Four properties of a graph, each with what a single change does to it:

* `Linked`: the nodes have distinct ids, every instance has the id of its node, and every edge leads
  from a node to a node;
* `SingleInput`: at most one edge leads to a node;
* `Typed`: every edge comes from a node field of an instance;
* `SingleOutput`: a field that is first declared for a single node has at most one edge.

Every change keeps the first two. The other two say something of the instances that edges come from,
so they are kept as long as no node is put in the place of another.
-/

namespace SyntaxGraph.Graph

/-! ### Looking up nodes -/

theorem contains_iff {g : Graph} {id : InstanceId} :
    g.contains id = true ↔ id ∈ g.nodes.map (·.id) := by
  simp [contains, node?]

theorem contains_eq_false_iff {g : Graph} {id : InstanceId} :
    g.contains id = false ↔ id ∉ g.nodes.map (·.id) := by
  rw [← contains_iff, Bool.not_eq_true]

theorem find?_putNode (n : GraphNode) (ns : List GraphNode) (id : InstanceId) :
    (putNode n ns).find? (·.id == id) = if n.id = id then some n else ns.find? (·.id == id) := by
  induction ns with
  | nil => by_cases h : n.id = id <;> simp [putNode, h]
  | cons m ns ih =>
    by_cases hm : m.id = n.id
    · by_cases h : n.id = id
      · simp [putNode, hm, h]
      · simp [putNode, hm, h]
    · rw [putNode, if_neg hm, List.find?_cons, List.find?_cons, ih]
      by_cases h : m.id = id
      · have hn : n.id ≠ id := fun hn => hm (h.trans hn.symm)
        have hbeq : (m.id == id) = true := by simpa using h
        simp only [hbeq, if_neg hn]
      · have hbeq : (m.id == id) = false := by simpa using h
        rw [hbeq]

theorem mem_putNode {m n : GraphNode} {ns : List GraphNode} (h : m ∈ putNode n ns) :
    m = n ∨ m ∈ ns := by
  induction ns with
  | nil => exact .inl (List.mem_singleton.1 h)
  | cons k ns ih =>
    rw [putNode] at h
    split at h
    · rcases List.mem_cons.1 h with rfl | h
      · exact .inl rfl
      · exact .inr (List.mem_cons_of_mem k h)
    · rcases List.mem_cons.1 h with rfl | h
      · exact .inr List.mem_cons_self
      · exact (ih h).imp_right (List.mem_cons_of_mem k)

/-- Putting a node keeps the ids in their places, and a new id comes at the end. -/
theorem ids_putNode (n : GraphNode) (ns : List GraphNode) :
    (putNode n ns).map (·.id) =
      if n.id ∈ ns.map (·.id) then ns.map (·.id) else ns.map (·.id) ++ [n.id] := by
  induction ns with
  | nil => rfl
  | cons m ns ih =>
    by_cases hm : m.id = n.id
    · simp [putNode, hm]
    · have hne : n.id ≠ m.id := Ne.symm hm
      by_cases hmem : n.id ∈ ns.map (·.id)
      · rw [if_pos hmem] at ih
        simp only [putNode, hm, if_false, List.map_cons, ih, List.mem_cons, hmem, or_true, if_true]
      · rw [if_neg hmem] at ih
        simp only [putNode, hm, if_false, List.map_cons, ih, List.mem_cons, hmem, hne, or_self,
          List.cons_append]

section State

variable {g : Graph}

/-- In a graph without repeated ids, the instance of a node is found under its id. -/
theorem state?_of_mem (hids : (g.nodes.map (·.id)).Nodup) {n : GraphNode} (hn : n ∈ g.nodes) :
    g.state? n.id = n.state := by
  have hfind : g.node? n.id = some n := by
    obtain ⟨before, after, hsplit⟩ := List.append_of_mem hn
    rw [hsplit, List.map_append, List.nodup_append] at hids
    have hbefore : ∀ m ∈ before, ¬((m.id == n.id) = true) := fun m hm => by
      simpa using hids.2.2 m.id (List.mem_map_of_mem hm) n.id (by simp)
    rw [node?, hsplit, List.find?_append, List.find?_eq_none.2 hbefore]
    simp
  rw [state?, hfind]
  rfl

theorem exists_mem_of_state? {id : InstanceId} {i : Instance} (h : g.state? id = some i) :
    ∃ n ∈ g.nodes, n.id = id ∧ n.state = some i := by
  obtain ⟨n, hn, hi⟩ := Option.bind_eq_some_iff.1 h
  have hid := List.find?_some hn
  exact ⟨n, List.mem_of_find?_eq_some hn, by simpa using hid, hi⟩

theorem contains_of_state? {id : InstanceId} {i : Instance} (h : g.state? id = some i) :
    g.contains id = true := by
  obtain ⟨n, hn, rfl, -⟩ := exists_mem_of_state? h
  exact contains_iff.2 (List.mem_map_of_mem hn)

theorem state?_put (n : GraphNode) (id : InstanceId) :
    ({ g with nodes := putNode n g.nodes } : Graph).state? id =
      if n.id = id then n.state else g.state? id := by
  unfold state? node?
  rw [find?_putNode]
  split <;> rfl

theorem find?_filter_ne {ns : List GraphNode} {id k : InstanceId} (h : k ≠ id) :
    (ns.filter (·.id != id)).find? (·.id == k) = ns.find? (·.id == k) := by
  rw [List.find?_filter]
  congr 1
  funext n
  by_cases hn : n.id = k
  · simp [hn, h]
  · simp [hn]

theorem state?_withState {id : InstanceId} {i j : Instance} (hi : g.state? id = some i)
    (k : InstanceId) : (g.withState id j).state? k = if k = id then some j else g.state? k := by
  have hfind : (g.withState id j).node? k =
      (g.node? k).map fun n => if n.id = id then { n with state := some j } else n := by
    simp only [node?, withState, List.find?_map]
    congr 2
    funext n
    by_cases hn : n.id = id <;> simp [hn]
  unfold state? at hi ⊢
  rw [hfind]
  cases hk : g.node? k with
  | none =>
    have hne : k ≠ id := by
      rintro rfl
      simp [hk] at hi
    simp [hne]
  | some n =>
    have hid : n.id = k := by simpa using List.find?_some hk
    by_cases hn : k = id
    · simp [hid, hn]
    · simp [hid, hn]

end State

/-! ### The properties -/

/-- Nodes, instances and edges fit together. -/
structure Linked (g : Graph) : Prop where
  ids : (g.nodes.map (·.id)).Nodup
  states : ∀ n ∈ g.nodes, ∀ i, n.state = some i → i.id = n.id
  ends : ∀ e ∈ g.edges, g.contains e.source = true ∧ g.contains e.target = true

/-- At most one edge leads to a node. -/
def SingleInput (g : Graph) : Prop :=
  (g.edges.map (·.target)).Nodup

/-- Every edge comes from a node field of an instance. -/
def Typed (g : Graph) : Prop :=
  ∀ e ∈ g.edges, ∃ i, g.state? e.source = some i ∧ i.hasNodeField e.field = true

/-- A field whose first declaration as a node field is for a single node has at most one edge. -/
def SingleOutput (g : Graph) : Prop :=
  ∀ source field i, g.state? source = some i → i.nodeFieldKind? field = some .singleNode →
    (Edge.targetsFrom g.edges source field).length ≤ 1

/-- Under an id there is a node with that id, and its instance has it too. -/
theorem Linked.id_of_node? {g : Graph} (h : g.Linked) {id : InstanceId} {n : GraphNode}
    (hn : g.node? id = some n) : n.id = id ∧ ∀ i, n.state = some i → i.id = id := by
  have hid : n.id = id := by simpa using List.find?_some hn
  refine ⟨hid, fun i hi => ?_⟩
  rw [h.states n (List.mem_of_find?_eq_some hn) i hi, hid]

theorem Linked.id_of_state? {g : Graph} (h : g.Linked) {id : InstanceId} {i : Instance}
    (hi : g.state? id = some i) : i.id = id := by
  obtain ⟨n, hn, rfl, hstate⟩ := exists_mem_of_state? hi
  exact h.states n hn i hstate

theorem hasNodeField_of_nodeFieldKind? {i : Instance} {field : String} {kind : FieldKind}
    (h : i.nodeFieldKind? field = some kind) : i.hasNodeField field = true := by
  obtain ⟨f, hf, -⟩ := Option.map_eq_some_iff.1 h
  have hname : (f.name == field) = true := by simpa using List.find?_some hf
  exact List.any_eq_true.2 ⟨f, List.mem_of_find?_eq_some hf, hname⟩

/-! ### One change -/

section Change

variable {g g' : Graph} {may : InstanceId → Prop}

/-- A node under a new id is put there by the change. -/
theorem Change.mem_ids (h : Change may g g') {n : GraphNode} (hn : n ∈ g'.nodes) :
    n.id ∈ g.nodes.map (·.id) ∨ may n.id := by
  cases h with
  | keep => exact .inl (List.mem_map_of_mem hn)
  | put m hmay hstate =>
    rcases mem_putNode hn with rfl | hn
    · exact .inr hmay
    · exact .inl (List.mem_map_of_mem hn)
  | remove id => exact .inl (List.mem_map_of_mem (List.mem_of_mem_filter hn))
  | @restate id i j hi hid hfields =>
    obtain ⟨m, hm, rfl⟩ := List.mem_map.1 hn
    refine .inl (List.mem_map.2 ⟨m, hm, ?_⟩)
    split <;> rfl
  | link htarget hi hkind => exact .inl (List.mem_map_of_mem hn)
  | unlink e => exact .inl (List.mem_map_of_mem hn)

theorem Change.linked (h : Change may g g') (hg : g.Linked) : g'.Linked := by
  cases h with
  | keep => exact hg
  | put n hmay hstate =>
    refine ⟨?_, ?_, ?_⟩
    · simp only [ids_putNode]
      split
      · exact hg.ids
      · rename_i hnew
        rw [List.nodup_append]
        refine ⟨hg.ids, by simp, fun a ha b hb => ?_⟩
        obtain rfl := List.mem_singleton.1 hb
        rintro rfl
        exact hnew ha
    · intro m hm
      rcases mem_putNode hm with rfl | hm
      · exact hstate
      · exact hg.states m hm
    · -- an id that was there stays there
      have hstay : ∀ id, g.contains id = true →
          ({ g with nodes := putNode n g.nodes } : Graph).contains id = true := by
        intro id hid
        rw [contains_iff] at hid ⊢
        simp only [ids_putNode]
        split
        · exact hid
        · exact List.mem_append_left _ hid
      exact fun e he => ⟨hstay _ (hg.ends e he).1, hstay _ (hg.ends e he).2⟩
  | remove id =>
    refine ⟨hg.ids.sublist (List.filter_sublist.map _), ?_, ?_⟩
    · exact fun n hn => hg.states n (List.mem_of_mem_filter hn)
    · intro e he
      simp only [List.mem_filter, Bool.and_eq_true, bne_iff_ne, ne_eq] at he
      obtain ⟨he, hsource, htarget⟩ := he
      have hstay : ∀ k, k ≠ id → g.contains k = true →
          ({ nodes := g.nodes.filter (·.id != id)
             edges := g.edges.filter fun e => e.source != id && e.target != id } : Graph).contains
            k = true := by
        intro k hk hcontains
        unfold contains node? at hcontains ⊢
        rwa [find?_filter_ne hk]
      exact ⟨hstay _ hsource (hg.ends e he).1, hstay _ htarget (hg.ends e he).2⟩
  | @restate id i j hi hid hfields =>
    have hids : (g.withState id j).nodes.map (·.id) = g.nodes.map (·.id) := by
      simp only [withState, List.map_map]
      refine List.map_congr_left fun n _ => ?_
      simp only [Function.comp_apply]
      split <;> rfl
    refine ⟨hids ▸ hg.ids, ?_, ?_⟩
    · intro n hn
      obtain ⟨m, hm, rfl⟩ := List.mem_map.1 hn
      split
      · rename_i hmid
        intro k hk
        obtain rfl : j = k := by simpa using hk
        rw [hid, hg.id_of_state? hi, hmid]
      · exact hg.states m hm
    · intro e he
      have hends := hg.ends e he
      rw [contains_iff, contains_iff] at hends ⊢
      rwa [hids]
  | @link source target field i kind htarget hi hkind =>
    refine ⟨hg.ids, hg.states, fun e he => ?_⟩
    rcases List.mem_append.1 he with he | he
    · exact hg.ends e (List.mem_of_mem_filter he)
    · obtain rfl := List.mem_singleton.1 he
      exact ⟨contains_of_state? hi, htarget⟩
  | unlink e =>
    exact ⟨hg.ids, hg.states, fun f hf => hg.ends f (List.mem_of_mem_filter hf)⟩

theorem Change.singleInput (h : Change may g g') (hg : g.SingleInput) : g'.SingleInput := by
  unfold SingleInput at hg ⊢
  cases h with
  | keep => exact hg
  | put n hmay hstate => exact hg
  | remove id => exact hg.sublist (List.filter_sublist.map _)
  | restate hi hid hfields => exact hg
  | @link source target field i kind htarget hi hkind =>
    -- what stays beside the new edge leads elsewhere
    rw [List.map_append, List.nodup_append]
    refine ⟨hg.sublist (List.filter_sublist.map _), by simp, fun a ha b hb => ?_⟩
    obtain ⟨e, he, rfl⟩ := List.mem_map.1 ha
    obtain rfl : b = target := by simpa using hb
    have hstays := (List.mem_filter.1 he).2
    simp only [staysBeside, Bool.and_eq_true, bne_iff_ne, ne_eq] at hstays
    exact hstays.1
  | unlink e => exact hg.sublist (List.filter_sublist.map _)

/-- A change that puts nodes under new ids only leaves at an instance that edges come from the same
node fields. -/
theorem Change.nodeFields_source (h : Change (fun id => g.contains id = false) g g')
    (hg : g.Linked) {e : Edge} (he : e ∈ g.edges) (he' : e ∈ g'.edges) {i : Instance}
    (hi : g.state? e.source = some i) :
    ∃ j, g'.state? e.source = some j ∧ j.nodeFields = i.nodeFields := by
  cases h with
  | keep => exact ⟨i, hi, rfl⟩
  | put n hnew hstate =>
    have hne : n.id ≠ e.source := by
      intro hid
      have hcontains := (hg.ends e he).1
      rw [← hid, hnew] at hcontains
      simp at hcontains
    exact ⟨i, by rw [state?_put, if_neg hne, hi], rfl⟩
  | remove id =>
    have hne : e.source ≠ id := by
      have hstays := (List.mem_filter.1 he').2
      simp only [Bool.and_eq_true, bne_iff_ne, ne_eq] at hstays
      exact hstays.1
    refine ⟨i, ?_, rfl⟩
    unfold state? node? at hi ⊢
    rwa [find?_filter_ne hne]
  | @restate id k j hk hid hfields =>
    rw [state?_withState hk]
    by_cases hsource : e.source = id
    · obtain rfl : k = i := by simpa [hsource, hk] using hi
      exact ⟨j, if_pos hsource, hfields⟩
    · exact ⟨i, by rw [if_neg hsource, hi], rfl⟩
  | link htarget hk hkind => exact ⟨i, hi, rfl⟩
  | unlink f => exact ⟨i, hi, rfl⟩

theorem Change.typed (h : Change (fun id => g.contains id = false) g g') (hg : g.Linked)
    (ht : g.Typed) : g'.Typed := by
  intro e he'
  by_cases he : e ∈ g.edges
  · obtain ⟨i, hi, hfield⟩ := ht e he
    obtain ⟨j, hj, hfields⟩ := h.nodeFields_source hg he he' hi
    exact ⟨j, hj, by rwa [Instance.hasNodeField, hfields]⟩
  · -- only a link brings in an edge
    cases h with
    | keep => exact absurd he' he
    | put n hnew hstate => exact absurd he' he
    | remove id => exact absurd (List.mem_of_mem_filter he') he
    | restate hi hid hfields => exact absurd he' he
    | link htarget hi hkind =>
      rcases List.mem_append.1 he' with he' | he'
      · exact absurd (List.mem_of_mem_filter he') he
      · obtain rfl := List.mem_singleton.1 he'
        exact ⟨_, hi, hasNodeField_of_nodeFieldKind? hkind⟩
    | unlink f => exact absurd (List.mem_of_mem_filter he') he

theorem targetsFrom_sublist {es fs : List Edge} (h : es.Sublist fs) (source : InstanceId)
    (field : String) :
    (Edge.targetsFrom es source field).Sublist (Edge.targetsFrom fs source field) :=
  (h.filter _).map _

theorem targetsFrom_eq_nil {es : List Edge} {source : InstanceId} {field : String}
    (h : ∀ e ∈ es, ¬(e.source = source ∧ e.field = field)) :
    Edge.targetsFrom es source field = [] := by
  rw [Edge.targetsFrom, List.map_eq_nil_iff, List.filter_eq_nil_iff]
  exact fun e he => by simpa using h e he

theorem Change.singleOutput (h : Change (fun id => g.contains id = false) g g') (hg : g.Linked)
    (ht : g.Typed) (hs : g.SingleOutput) : g'.SingleOutput := by
  intro source field i hi hkind
  -- edges that were there before are as few as they were, the field having the same kind
  have hold : ∀ es : List Edge, es.Sublist g.edges → (∀ e ∈ es, e ∈ g'.edges) →
      (Edge.targetsFrom es source field).length ≤ 1 := by
    intro es hsub hstay
    by_cases hnone : ∀ e ∈ es, ¬(e.source = source ∧ e.field = field)
    · simp [targetsFrom_eq_nil hnone]
    · obtain ⟨e, he, rfl, rfl⟩ : ∃ e ∈ es, e.source = source ∧ e.field = field := by
        simpa using hnone
      obtain ⟨k, hk, -⟩ := ht e (hsub.subset he)
      obtain ⟨j, hj, hfields⟩ := h.nodeFields_source hg (hsub.subset he) (hstay e he) hk
      obtain rfl : j = i := by simpa [hj] using hi
      have hkind' : k.nodeFieldKind? e.field = some .singleNode := by
        rwa [Instance.nodeFieldKind?, hfields] at hkind
      exact Nat.le_trans (targetsFrom_sublist hsub _ _).length_le (hs _ _ k hk hkind')
  cases h with
  | keep => exact hold _ (List.Sublist.refl _) fun _ he => he
  | put n hnew hstate => exact hold _ (List.Sublist.refl _) fun _ he => he
  | remove id => exact hold _ List.filter_sublist fun _ he => he
  | restate hk hid hfields => exact hold _ (List.Sublist.refl _) fun _ he => he
  | @link source' target field' k kind htarget hk hkind' =>
    rw [targetsFrom_append, List.length_append]
    by_cases hsame : source' = source ∧ field' = field
    · obtain ⟨rfl, rfl⟩ := hsame
      obtain rfl : k = i := Option.some.inj (hk.symm.trans hi)
      obtain rfl : kind = .singleNode := Option.some.inj (hkind'.symm.trans hkind)
      have hnone : Edge.targetsFrom (g.edges.filter (staysBeside .singleNode source' field' target))
          source' field' = [] := by
        refine targetsFrom_eq_nil fun e he hsame => ?_
        have hstays := (List.mem_filter.1 he).2
        simp [staysBeside, hsame.1, hsame.2] at hstays
      rw [hnone]
      simp [Edge.targetsFrom]
    · have hnew : Edge.targetsFrom [⟨source', field', target⟩] source field = [] :=
        targetsFrom_eq_nil fun e he => by
          obtain rfl := List.mem_singleton.1 he
          exact hsame
      have hstay := hold _ List.filter_sublist fun e he => List.mem_append_left _ he
      simpa [hnew] using hstay
  | unlink f => exact hold _ List.filter_sublist fun _ he => he

end Change

/-! ### The empty graph -/

theorem linked_empty : Linked {} :=
  ⟨List.nodup_nil, by simp, by simp⟩

theorem singleInput_empty : SingleInput {} :=
  List.nodup_nil

theorem typed_empty : Typed {} := by
  intro e he
  simp at he

theorem singleOutput_empty : SingleOutput {} := by
  intro source field i hi
  simp [state?, node?] at hi

/-! ### The graph of a converted tree -/

theorem linked_foldl_insert (is : List Instance) {g : Graph} (hg : g.Linked) :
    (is.foldl insert g).Linked := by
  induction is generalizing g with
  | nil => exact hg
  | cons i is ih =>
    have hchange : Change (fun _ => True) g (g.insert i) :=
      .put ⟨i.id, some i⟩ trivial (by simp)
    exact ih (hchange.linked hg)

theorem mem_ids_foldl_insert (is : List Instance) (g : Graph) (id : InstanceId) :
    id ∈ (is.foldl insert g).nodes.map (·.id) ↔
      id ∈ g.nodes.map (·.id) ∨ id ∈ is.map (·.id) := by
  induction is generalizing g with
  | nil => simp
  | cons i is ih =>
    have hput : id ∈ (g.insert i).nodes.map (·.id) ↔ id ∈ g.nodes.map (·.id) ∨ id = i.id := by
      rw [insert, ids_putNode]
      split
      · rename_i hi
        refine ⟨.inl, ?_⟩
        rintro (hid | rfl)
        · exact hid
        · exact hi
      · rw [List.mem_append, List.mem_singleton]
    rw [List.foldl_cons, ih, hput, List.map_cons, List.mem_cons, or_assoc]

section OfConverted

variable {root : ConvertedNode}

theorem mem_edges_ofConverted {e : Edge} (he : e ∈ (ofConverted root).edges) :
    ∃ p ∈ root.subtrees, ∃ l ∈ p.links, e = ⟨p.id, l.1, l.2.id⟩ := by
  obtain ⟨p, hp, he⟩ := List.mem_flatMap.1 he
  obtain ⟨l, hl, rfl⟩ := List.mem_map.1 he
  exact ⟨p, hp, l, hl, rfl⟩

theorem mem_ids_ofConverted {id : InstanceId} :
    id ∈ (ofConverted root).nodes.map (·.id) ↔ id ∈ root.instances.map (·.id) := by
  rw [ofConverted, mem_ids_foldl_insert]
  simp

/-- The graph of a converted tree is linked, whatever the ids in the tree are. -/
theorem linked_ofConverted (root : ConvertedNode) : (ofConverted root).Linked := by
  have hlinked := linked_foldl_insert root.instances linked_empty
  refine ⟨hlinked.ids, hlinked.states, fun e he => ?_⟩
  have hnode : ∀ n ∈ root.subtrees, (ofConverted root).contains n.id = true := by
    intro n hn
    rw [contains_iff, mem_ids_ofConverted]
    exact List.mem_map.2 ⟨n.state, List.mem_map_of_mem hn, rfl⟩
  obtain ⟨p, hp, l, hl, rfl⟩ := mem_edges_ofConverted he
  have hkid : l.2 ∈ p.kids := by
    rw [ConvertedNode.kids_eq_map_links]
    exact List.mem_map_of_mem hl
  have hbelow : l.2 ∈ root.subtrees :=
    (ConvertedNode.sublist_subtrees hp).subset (ConvertedNode.mem_subtrees_of_mem_kids hkid)
  exact ⟨hnode p hp, hnode l.2 hbelow⟩

theorem singleInput_ofConverted (h : root.Simple) : (ofConverted root).SingleInput := by
  have htargets : (ofConverted root).edges.map (·.target) =
      (root.subtrees.flatMap ConvertedNode.kids).map ConvertedNode.id := by
    rw [ofConverted, List.map_flatMap, List.map_flatMap]
    refine List.flatMap_congr fun n _ => ?_
    rw [linkEdges, ConvertedNode.kids_eq_map_links, List.map_map, List.map_map]
    rfl
  have hids := h.ids
  rw [ConvertedNode.subtrees_eq, List.map_cons, List.nodup_cons] at hids
  rw [SingleInput, htargets]
  exact ((ConvertedNode.flatMap_kids_perm root).map _).nodup_iff.2 hids.2

/-- Every node of the tree is found under its id. -/
theorem state?_ofConverted (h : root.Simple) {n : ConvertedNode} (hn : n ∈ root.subtrees) :
    (ofConverted root).state? n.id = some n.state := by
  have hmem : ⟨n.id, some n.state⟩ ∈ (ofConverted root).nodes := by
    rw [nodes_ofConverted h]
    exact List.mem_map.2 ⟨n.state, List.mem_map_of_mem hn, rfl⟩
  exact state?_of_mem (linked_ofConverted root).ids hmem

theorem typed_ofConverted (h : root.Simple)
    (hfields : ∀ n ∈ root.subtrees, ∀ f ∈ n.children, n.state.hasNodeField f.1 = true) :
    (ofConverted root).Typed := by
  intro e he
  obtain ⟨p, hp, l, hl, rfl⟩ := mem_edges_ofConverted he
  refine ⟨p.state, state?_ofConverted h hp, ?_⟩
  obtain ⟨f, hf, hlf⟩ := List.mem_flatMap.1 hl
  obtain ⟨k, -, rfl⟩ := List.mem_map.1 hlf
  exact hfields p hp f hf

end OfConverted

end SyntaxGraph.Graph
