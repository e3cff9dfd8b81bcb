import SyntaxGraph.Proofs.Conformity
import SyntaxGraph.Proofs.Json.Reading
import SyntaxGraph.Tree.Json

/-!
# Trees and their texts

The fields of a node have distinct names. A tree of such nodes is read back from both of its texts,
the one without white space and the one with a line for each element and member, unless its root has
an empty tag, which is refused as such. Every tree that is read consists of such nodes, whatever the
text repeats, so writing it and reading it again changes nothing.
-/

namespace SyntaxGraph

theorem Table.assign_of_notMem {name : String} {t : List (String × α)} (h : name ∉ t.map (·.1))
    (entry : α) : Table.assign name entry t = t ++ [(name, entry)] := by
  induction t with
  | nil => rfl
  | cons e t ih =>
    rw [List.map_cons, List.mem_cons, not_or] at h
    rw [Table.assign, if_neg (Ne.symm h.1), ih h.2, List.cons_append]

theorem Table.keys_assign (name : String) (entry : α) (t : List (String × α)) :
    (Table.assign name entry t).map (·.1) =
      if name ∈ t.map (·.1) then t.map (·.1) else t.map (·.1) ++ [name] := by
  induction t with
  | nil => rfl
  | cons e t ih =>
    by_cases he : e.1 = name
    · simp [Table.assign, he]
    · have he' : name ≠ e.1 := Ne.symm he
      by_cases hmem : name ∈ t.map (·.1)
      · simp only [Table.assign, he, if_false, List.map_cons, ih, hmem, if_true, List.mem_cons,
          or_true]
      · simp only [Table.assign, he, he', if_false, List.map_cons, ih, hmem, List.mem_cons, or_self,
          List.cons_append]

theorem Table.mem_assign {name : String} {entry : α} {t : List (String × α)} {e : String × α}
    (h : e ∈ Table.assign name entry t) : e.2 = entry ∨ e ∈ t := by
  induction t with
  | nil => simp_all [Table.assign]
  | cons f t ih =>
    rw [Table.assign] at h
    split at h
    · rcases List.mem_cons.1 h with rfl | h
      · exact .inl rfl
      · exact .inr (List.mem_cons_of_mem f h)
    · rcases List.mem_cons.1 h with rfl | h
      · exact .inr List.mem_cons_self
      · exact (ih h).imp_right fun h => List.mem_cons_of_mem f h

namespace Tree

/-- The names of the fields are distinct. -/
def Node.DistinctNames (n : Node) : Prop :=
  (n.fields.map (·.1)).Nodup

/-! ### What is written -/

theorem fieldsToJson_eq_map (fields : List (String × Slot)) :
    fieldsToJson fields = (fields.map fun f => (f.1, f.2.toJson)).map fun m => (some m.1, m.2) := by
  induction fields with
  | nil => rw [fieldsToJson]; rfl
  | cons f fields ih => rw [fieldsToJson, ih]; rfl

theorem nodesToJson_eq_map (ns : List Node) : nodesToJson ns = ns.map Node.toJson := by
  induction ns with
  | nil => rw [nodesToJson]; rfl
  | cons n ns ih => rw [nodesToJson, ih]; rfl

variable {fits : Nat → Prop}

theorem Token.plain_toJson (t : Token) : t.toJson.Plain fits := by
  refine .object fun m hm => ?_
  simp only [List.cons_append, List.nil_append, List.mem_cons] at hm
  rcases hm with rfl | rfl | hm
  · exact .text _
  · exact .text _
  · split at hm
    · obtain rfl := List.mem_singleton.1 hm
      exact .bool _
    · simp at hm

theorem plain_ofMember {name : String} {j : Json} (h : j.Plain fits) :
    (Json.ofMembers [(name, j)]).Plain fits := by
  refine .object fun m hm => ?_
  obtain rfl := List.mem_singleton.1 hm
  exact h

theorem Slot.plain_toJson {slot : Slot} (h : ∀ n ∈ slot.childNodes, n.toJson.Plain fits) :
    slot.toJson.Plain fits := by
  cases slot with
  | token t =>
    rw [Slot.toJson]
    exact plain_ofMember t.plain_toJson
  | tokens ts =>
    rw [Slot.toJson]
    exact plain_ofMember (.array (List.forall_mem_map.2 fun t _ => t.plain_toJson))
  | node n =>
    rw [Slot.toJson]
    exact plain_ofMember (h n List.mem_cons_self)
  | nodes ns =>
    rw [Slot.toJson, nodesToJson_eq_map]
    exact plain_ofMember (.array (List.forall_mem_map.2 h))

theorem Node.plain_toJson {n : Node} {p : Node → Prop} (h : n.Everywhere p) :
    n.toJson.Plain fits := by
  induction h with
  | @intro n _ _ ih =>
    cases n with
    | mk tag fields =>
      cases fields with
      | nil =>
        rw [Node.toJson]
        exact plain_ofMember (.text tag)
      | cons f fs =>
        rw [Node.toJson, fieldsToJson_eq_map]
        refine .object fun m hm => ?_
        simp only [List.mem_cons, List.not_mem_nil, or_false] at hm
        rcases hm with rfl | rfl
        · exact .text tag
        · exact .object (List.forall_mem_map.2 fun g hg => Slot.plain_toJson (ih g hg))

/-! ### Reading what is written -/

theorem Token.ofJson?_toJson (t : Token) : Token.ofJson? t.toJson = some t := by
  obtain ⟨tag, text, missing⟩ := t
  rw [Token.ofJson?, Token.toJson, Json.record?_ofMembers (by decide) (by split <;> simp)]
  cases missing <;> rfl

/-- Fields with names of their own are read on top of those read before. -/
theorem fieldMembers?_fieldsToJson {fields : List (String × Slot)}
    (hslots : ∀ f ∈ fields, Slot.ofJson? f.2.toJson = some f.2) {before : List (String × Slot)}
    (hnames : ((before ++ fields).map (·.1)).Nodup) :
    fieldMembers? before (fieldsToJson fields) = some (before ++ fields) := by
  induction fields generalizing before with
  | nil => rw [fieldsToJson, fieldMembers?, List.append_nil]
  | cons f fields ih =>
    have hnew : f.1 ∉ before.map (·.1) := by
      rw [List.map_append, List.nodup_append] at hnames
      intro hmem
      exact hnames.2.2 f.1 hmem f.1 (by simp) rfl
    have hassign := Table.assign_of_notMem hnew f.2
    rw [fieldsToJson, fieldMembers?, hslots f List.mem_cons_self]
    simp only [hassign]
    rw [ih (fun g hg => hslots g (List.mem_cons_of_mem f hg)) (by simpa using hnames)]
    simp

/-- Nodes are decoded one by one. -/
theorem nodes?_eq (j : Json) : nodes? j = j.toList? Node.ofJson? := by
  cases j with
  | array xs =>
    rw [nodes?, Json.toList?]
    induction xs with
    | nil => rw [nodeElements?]; rfl
    | cons x xs ih =>
      rw [nodeElements?, ih, List.mapM_cons]
      cases Node.ofJson? x <;> cases xs.mapM Node.ofJson? <;> rfl
  | _ => rw [nodes?.eq_def, Json.toList?.eq_def]

theorem Slot.ofJson?_toJson {slot : Slot}
    (h : ∀ n ∈ slot.childNodes, Node.ofJson? n.toJson = some n) :
    Slot.ofJson? slot.toJson = some slot := by
  cases slot with
  | token t =>
    rw [Slot.toJson]
    simp [Json.ofMembers, Slot.ofJson?, Token.ofJson?_toJson]
  | tokens ts =>
    have hts := Json.toList?_array_map_of_all fun t (_ : t ∈ ts) => t.ofJson?_toJson
    rw [Slot.toJson]
    simp [Json.ofMembers, Slot.ofJson?, hts]
  | node n =>
    rw [Slot.toJson]
    simp [Json.ofMembers, Slot.ofJson?, h n List.mem_cons_self]
  | nodes ns =>
    have hns : nodes? (.array (ns.map Node.toJson)) = some ns := by
      rw [nodes?_eq]
      exact Json.toList?_array_map_of_all h
    rw [Slot.toJson, nodesToJson_eq_map]
    simp [Json.ofMembers, Slot.ofJson?, hns]

theorem Node.ofJson?_toJson {n : Node} (h : n.Everywhere DistinctNames) :
    Node.ofJson? n.toJson = some n := by
  induction h with
  | @intro n hnames _ ih =>
    cases n with
    | mk tag fields =>
      cases fields with
      | nil =>
        rw [Node.toJson]
        simp [Json.ofMembers, Node.ofJson?, Json.record?, Json.recordMembers?, Json.fitsRecord,
          fieldsIn?, Json.ofString, Json.toText?]
      | cons f fs =>
        have hfields : fields? (.object (fieldsToJson (f :: fs))) = some ([] ++ f :: fs) := by
          rw [fields?]
          exact fieldMembers?_fieldsToJson (fun g hg => Slot.ofJson?_toJson (ih g hg)) hnames
        rw [List.nil_append] at hfields
        rw [Node.toJson]
        simp [Json.ofMembers, Node.ofJson?, Json.record?, Json.recordMembers?, Json.fitsRecord,
          fieldsIn?, hfields, Json.ofString, Json.toText?]

/-! ### What is read -/

/-- The fields have distinct names, and so have those of all nodes below them. -/
structure Distinct (fields : List (String × Slot)) : Prop where
  names : (fields.map (·.1)).Nodup
  below : ∀ f ∈ fields, ∀ n ∈ f.2.childNodes, n.Everywhere Node.DistinctNames

theorem distinct_nil : Distinct [] :=
  ⟨List.nodup_nil, by simp⟩

theorem Distinct.node {fields : List (String × Slot)} (h : Distinct fields) (tag : String) :
    (Node.mk tag fields).Everywhere Node.DistinctNames :=
  ⟨h.names, h.below⟩

theorem Distinct.assign {before : List (String × Slot)} (h : Distinct before) (name : String)
    {slot : Slot} (hslot : ∀ n ∈ slot.childNodes, n.Everywhere Node.DistinctNames) :
    Distinct (Table.assign name slot before) where
  names := by
    rw [Table.keys_assign]
    split
    · exact h.names
    · rename_i hnew
      refine List.nodup_append.2 ⟨h.names, by simp, fun a ha b hb => ?_⟩
      obtain rfl := List.mem_singleton.1 hb
      rintro rfl
      exact hnew ha
  below f hf := by
    rcases Table.mem_assign hf with hf | hf
    · rw [hf]
      exact hslot
    · exact h.below f hf

mutual

theorem Node.distinct_of_ofJson? {j : Json} {n : Node} (h : Node.ofJson? j = some n) :
    n.Everywhere Node.DistinctNames := by
  rw [Node.ofJson?.eq_def] at h
  split at h
  · split at h
    · obtain ⟨tag, -, h⟩ := Option.bind_eq_some_iff.1 h
      obtain ⟨fields, hfields, h⟩ := Option.bind_eq_some_iff.1 h
      obtain rfl := Option.some.inj h
      exact (distinct_of_fieldsIn? hfields).node tag
    · simp at h
  · obtain ⟨tag, -, h⟩ := Option.bind_eq_some_iff.1 h
    obtain rfl := Option.some.inj h
    exact distinct_nil.node tag
  · obtain ⟨tag, -, h⟩ := Option.bind_eq_some_iff.1 h
    obtain ⟨fields, hfields, h⟩ := Option.bind_eq_some_iff.1 h
    obtain rfl := Option.some.inj h
    exact (distinct_of_fields? hfields).node tag
  · simp at h
termination_by sizeOf j

theorem distinct_of_fieldsIn? {ms : List (Option String × Json)} {fields : List (String × Slot)}
    (h : fieldsIn? ms = some fields) : Distinct fields := by
  rw [fieldsIn?.eq_def] at h
  split at h
  · obtain rfl := Option.some.inj h
    exact distinct_nil
  · split at h
    · exact distinct_of_fields? h
    · exact distinct_of_fieldsIn? h
termination_by sizeOf ms

theorem distinct_of_fields? {j : Json} {fields : List (String × Slot)}
    (h : fields? j = some fields) : Distinct fields := by
  rw [fields?.eq_def] at h
  split at h
  · exact distinct_of_fieldMembers? distinct_nil h
  · simp at h
termination_by sizeOf j

theorem distinct_of_fieldMembers? {ms : List (Option String × Json)}
    {before fields : List (String × Slot)} (hbefore : Distinct before)
    (h : fieldMembers? before ms = some fields) : Distinct fields := by
  rw [fieldMembers?.eq_def] at h
  split at h
  · exact Option.some.inj h ▸ hbefore
  · simp at h
  · split at h
    · rename_i name _ _ _ slot hslot
      exact distinct_of_fieldMembers? (hbefore.assign name (Slot.distinct_of_ofJson? hslot)) h
    · simp at h
termination_by sizeOf ms

theorem Slot.distinct_of_ofJson? {j : Json} {slot : Slot} (h : Slot.ofJson? j = some slot) :
    ∀ n ∈ slot.childNodes, n.Everywhere Node.DistinctNames := by
  rw [Slot.ofJson?.eq_def] at h
  split at h
  · split at h
    · obtain ⟨t, -, rfl⟩ := Option.map_eq_some_iff.1 h
      simp [Slot.childNodes]
    split at h
    · obtain ⟨ts, -, rfl⟩ := Option.map_eq_some_iff.1 h
      simp [Slot.childNodes]
    split at h
    · obtain ⟨n, hn, rfl⟩ := Option.map_eq_some_iff.1 h
      intro m hm
      obtain rfl := List.mem_singleton.1 hm
      exact Node.distinct_of_ofJson? hn
    split at h
    · obtain ⟨ns, hns, rfl⟩ := Option.map_eq_some_iff.1 h
      exact distinct_of_nodes? hns
    · simp at h
  · simp at h
termination_by sizeOf j

theorem distinct_of_nodes? {j : Json} {ns : List Node} (h : nodes? j = some ns) :
    ∀ n ∈ ns, n.Everywhere Node.DistinctNames := by
  rw [nodes?.eq_def] at h
  split at h
  · exact distinct_of_nodeElements? h
  · simp at h
termination_by sizeOf j

theorem distinct_of_nodeElements? {xs : List Json} {ns : List Node}
    (h : nodeElements? xs = some ns) : ∀ n ∈ ns, n.Everywhere Node.DistinctNames := by
  rw [nodeElements?.eq_def] at h
  split at h
  · obtain rfl := Option.some.inj h
    simp
  · split at h
    · rename_i n ns hn hns
      obtain rfl := Option.some.inj h
      exact List.forall_mem_cons.2 ⟨Node.distinct_of_ofJson? hn, distinct_of_nodeElements? hns⟩
    · simp at h
termination_by sizeOf xs

end

/-! ### The round trip -/

/-- What reading a written text comes to. -/
theorem parse_of_read {t : Node} (h : t.Everywhere Node.DistinctNames) {source : String}
    (hread : Json.read source = ⟨t.toJson, true⟩) :
    parse source = if t.tag = "" then .error .emptyRootTag else .ok t := by
  simp only [parse, hread, Node.ofJson?_toJson h]
  simp

theorem distinct_of_parse {source : String} {t : Node} (h : parse source = .ok t) :
    t.Everywhere Node.DistinctNames ∧ t.tag ≠ "" := by
  simp only [parse] at h
  split at h
  · rename_i node hnode
    split at h
    · simp at h
    · split at h
      · simp at h
      · rename_i htag
        obtain rfl := Except.ok.inj h
        exact ⟨Node.distinct_of_ofJson? hnode, by simpa using htag⟩
  · simp at h

/-- **Trees are read back.** A tree in which each node has fields of distinct names is read back from
both of its texts, with its fields in their order. If its root has an empty tag, it is refused for
that, and not as malformed. And whatever text a tree was read from, writing the tree and reading it
again gives the same tree. -/
theorem parse_written :
    (∀ t : Node, t.Everywhere Node.DistinctNames →
      parse t.toJson.compact = (if t.tag = "" then .error .emptyRootTag else .ok t) ∧
      parse t.toJson.pretty = (if t.tag = "" then .error .emptyRootTag else .ok t)) ∧
    ∀ source t, parse source = .ok t →
      parse t.toJson.compact = .ok t ∧ parse t.toJson.pretty = .ok t := by
  have hwritten : ∀ t : Node, t.Everywhere Node.DistinctNames →
      parse t.toJson.compact = (if t.tag = "" then .error .emptyRootTag else .ok t) ∧
      parse t.toJson.pretty = (if t.tag = "" then .error .emptyRootTag else .ok t) := by
    intro t h
    have hplain : t.toJson.Plain fun _ => True := Node.plain_toJson h
    exact ⟨parse_of_read h (Json.read_compact hplain), parse_of_read h (Json.read_pretty hplain)⟩
  refine ⟨hwritten, fun source t hparse => ?_⟩
  obtain ⟨hdistinct, htag⟩ := distinct_of_parse hparse
  have ht := hwritten t hdistinct
  rwa [if_neg htag] at ht

/-- A tree with a field of no name, texts to escape, a missing token, lists of nothing, and a node
of no tag inside. -/
def odd (tag : String) : Node :=
  .mk tag [("", .token ⟨"word", "\"ä\\\n\x01😀", false⟩), ("Tokens", .tokens []),
    ("Nodes", .nodes []), ("Inner", .node (.mk "" [("Gap", .token ⟨"mark", "", true⟩)]))]

theorem distinct_odd (tag : String) : (odd tag).Everywhere Node.DistinctNames := by
  have hinner : (Node.mk "" [("Gap", .token ⟨"mark", "", true⟩)]).Everywhere Node.DistinctNames :=
    .intro (by simp [Node.DistinctNames, Node.fields]) (by simp [Node.fields, Slot.childNodes])
  refine .intro ?_ ?_
  · simp [Node.DistinctNames, Node.fields, odd]
  · simpa [Node.fields, Slot.childNodes, odd] using hinner

theorem parse_written_odd :
    parse (odd "Unit").toJson.compact = .ok (odd "Unit") ∧
    parse (odd "Unit").toJson.pretty = .ok (odd "Unit") ∧
    parse (odd "").toJson.compact = .error .emptyRootTag ∧
    parse (odd "").toJson.pretty = .error .emptyRootTag ∧
    parse "[\"Unit\"]" = .ok (.mk "Unit" []) ∧
    parse (Node.mk "Unit" []).toJson.pretty = .ok (.mk "Unit" []) := by
  obtain ⟨hwritten, hagain⟩ := parse_written
  have hunit := hwritten (odd "Unit") (distinct_odd "Unit")
  have hempty := hwritten (odd "") (distinct_odd "")
  have htokens : Json.tokens "[\"Unit\"]".toList =
      [.openArray, .text (some "Unit"), .closeArray] := by decide +kernel
  have hread : Json.read "[\"Unit\"]" = ⟨.array [.text (some "Unit")], true⟩ := by
    simp only [Json.read, htokens]
    rfl
  have hleaf : parse "[\"Unit\"]" = .ok (.mk "Unit" []) := by
    simp [parse, hread, Node.ofJson?, Json.toText?, Node.tag]
  exact ⟨hunit.1, hunit.2, hempty.1, hempty.2, hleaf, (hagain _ _ hleaf).2⟩

end Tree

end SyntaxGraph
