import SyntaxGraph.Proofs.Schema.Catalog

/-!
# The token fields that a catalog finds

For each name a catalog keeps the token fields of a template by the tags they recognize. They are
kept apart from the templates, and only for templates that list a tag: a node that declares a name
anew takes the template over, but takes the token fields over only if it lists a tag itself. So what
is found are the token fields of the last node of the name that lists a tag. This need not be the
template of the name.
-/

namespace SyntaxGraph

/-- The field of a template that recognizes a token tag: the last of its token fields, in whatever
alternative, that lists the tag. -/
def Template.fieldForToken? (t : Template) (tag : String) : Option FieldSpec :=
  ((Units.specs t.fields).filter fun f => f.kind.isToken ∧ tag ∈ f.kinds).getLast?

theorem Template.mem_tokenTags_iff {t : Template} {tag field : String} :
    (tag, field) ∈ t.tokenTags ↔
      ∃ f ∈ Units.specs t.fields, (f.kind.isToken ∧ tag ∈ f.kinds) ∧ f.name = field := by
  simp only [tokenTags, Units.tokenFields, List.mem_flatMap, List.mem_filter, List.mem_map,
    Prod.mk.injEq, and_assoc]
  refine exists_congr fun f => ?_
  simp only [and_left_comm, exists_eq_left]

/-- A template lists a tag exactly when it has a field for one. -/
theorem Template.tokenTags_ne_nil_iff {t : Template} :
    t.tokenTags ≠ [] ↔ ∃ tag, (t.fieldForToken? tag).isSome := by
  simp only [fieldForToken?, List.getLast?_isSome, ← List.length_pos_iff,
    List.length_pos_iff_exists_mem, Prod.exists, mem_tokenTags_iff, List.mem_filter,
    decide_eq_true_eq]
  constructor
  · rintro ⟨tag, field, f, hf, htag, -⟩
    exact ⟨tag, f, hf, htag⟩
  · rintro ⟨tag, f, hf, htag⟩
    exact ⟨tag, f.name, f, hf, htag, rfl⟩

namespace Schema.Catalog

/-- The table of a template's token tags has under each tag the name of the field for it. -/
theorem getElem?_table_tokenTags (t : Template) (tag : String) :
    (table t.tokenTags)[tag]? = (t.fieldForToken? tag).map (·.name) := by
  have hentries : t.tokenTags =
      ((Units.tokenFields t.fields).flatMap fun f => f.kinds.map (·, f)).map
        (Prod.map id (·.name)) := by
    simp only [Template.tokenTags, List.map_flatMap, List.map_map]
    rfl
  rw [hentries, getElem?_table_map_snd, getElem?_table_flatMap, Units.tokenFields,
    List.filter_filter, Template.fieldForToken?]
  simp only [Bool.decide_and, Bool.decide_eq_true, Bool.and_comm]

/-- What a catalog finds for a name are the token fields of the given template: under each tag the
field for it, and nothing at all if there is no template or it has no field for any tag. -/
structure ListsTokensOf (c : Catalog) (name : String) (t? : Option Template) : Prop where
  entry : ∀ fields ∈ c.tokenFields? name, ∀ tag,
    fields[tag]? = t?.bind fun t => (t.fieldForToken? tag).map (·.name)
  isSome_iff : (c.tokenFields? name).isSome ↔ ∃ t ∈ t?, ∃ tag, (t.fieldForToken? tag).isSome

theorem ListsTokensOf.tokenFieldFor? {c : Catalog} {name : String} {t? : Option Template}
    (h : c.ListsTokensOf name t?) (tag : String) :
    c.tokenFieldFor? name tag = t?.bind fun t => (t.fieldForToken? tag).map (·.name) := by
  rw [Catalog.tokenFieldFor?]
  cases hfields : c.tokenFields? name with
  | some fields => exact h.entry fields hfields tag
  | none =>
    have hnone := h.isSome_iff.not.1 (by simp [hfields])
    cases t? with
    | none => rfl
    | some t =>
      have hfield : t.fieldForToken? tag = none :=
        Option.not_isSome_iff_eq_none.1 fun hsome => hnone ⟨t, rfl, tag, hsome⟩
      rw [Option.bind_some, hfield]
      rfl

theorem getLast?_filter_of_getLast? {p : α → Bool} {xs : List α} {x : α}
    (hx : xs.getLast? = some x) (hp : p x = true) : (xs.filter p).getLast? = some x := by
  obtain ⟨ys, rfl⟩ := List.getLast?_eq_some_iff.1 hx
  rw [List.filter_append, List.filter_singleton, hp, cond_true, List.getLast?_concat]

section OfDocument

variable (doc : Document) (name : String)

theorem tokenFields?_ofDocument :
    (ofDocument doc).tokenFields? name =
      (((doc.nodes.filter (·.name = name)).filter (·.tokenTags ≠ [])).getLast?).map
        fun t => table t.tokenTags := by
  have hentries : (doc.nodes.filter (!·.tokenTags.isEmpty)).map
        (fun t => (t.name, table t.tokenTags)) =
      ((doc.nodes.filter (!·.tokenTags.isEmpty)).map fun t => (t.name, t)).map
        (Prod.map id fun t => table t.tokenTags) := by
    rw [List.map_map]
    rfl
  have hnodes : (doc.nodes.filter (!·.tokenTags.isEmpty)).filter (·.name = name) =
      (doc.nodes.filter (·.name = name)).filter (·.tokenTags ≠ []) := by
    rw [List.filter_filter, List.filter_filter]
    refine List.filter_congr fun t _ => ?_
    cases t.tokenTags <;> simp
  rw [tokenFields?, ofDocument, hentries, getElem?_table_map_snd, getElem?_table_map, hnodes]

/-- A name has token fields exactly when some node of the name lists a tag. -/
theorem isSome_tokenFields?_iff :
    ((ofDocument doc).tokenFields? name).isSome ↔
      ∃ t ∈ doc.nodes, t.name = name ∧ t.tokenTags ≠ [] := by
  rw [tokenFields?_ofDocument, Option.isSome_map, List.getLast?_isSome, ne_eq,
    List.filter_eq_nil_iff]
  simp

theorem listsTokensOf_last :
    (ofDocument doc).ListsTokensOf name
      ((doc.nodes.filter (·.name = name)).filter (·.tokenTags ≠ [])).getLast? where
  entry := by
    intro fields hfields tag
    rw [tokenFields?_ofDocument] at hfields
    obtain ⟨t, ht, rfl⟩ := Option.map_eq_some_iff.1 hfields
    rw [ht]
    exact getElem?_table_tokenTags t tag
  isSome_iff := by
    rw [tokenFields?_ofDocument, Option.isSome_map, Option.isSome_iff_exists]
    refine exists_congr fun t => ⟨fun ht => ⟨ht, ?_⟩, fun ht => ht.1⟩
    have htags := List.of_mem_filter (List.mem_of_getLast? ht)
    exact Template.tokenTags_ne_nil_iff.1 (of_decide_eq_true htags)

/-- The token fields are those of the template of the name exactly when the template lists a tag or
no node of the name does. -/
theorem listsTokensOf_template?_iff :
    (ofDocument doc).ListsTokensOf name ((ofDocument doc).template? name) ↔
      ((∃ t ∈ doc.nodes, t.name = name ∧ t.tokenTags ≠ []) →
        ∃ t ∈ (ofDocument doc).template? name, t.tokenTags ≠ []) := by
  rw [← isSome_tokenFields?_iff]
  constructor
  · intro h hsome
    obtain ⟨t, ht, htags⟩ := h.isSome_iff.1 hsome
    exact ⟨t, ht, Template.tokenTags_ne_nil_iff.2 htags⟩
  · intro h
    cases hfields : (ofDocument doc).tokenFields? name with
    | some fields =>
      -- the last node of the name lists a tag, so it is the last one of those that do
      obtain ⟨t, ht, htags⟩ := h (by simp [hfields])
      have hlast := listsTokensOf_last doc name
      rw [template?_ofDocument] at ht
      rwa [getLast?_filter_of_getLast? ht (decide_eq_true htags), ← Option.mem_def.1 ht,
        ← template?_ofDocument] at hlast
    | none =>
      refine ⟨by simp [hfields], ?_⟩
      have hnone := (isSome_tokenFields?_iff doc name).not.1 (by simp [hfields])
      simp only [hfields, Option.isSome_none, Bool.false_eq_true, false_iff]
      rintro ⟨t, ht, htags⟩
      rw [template?_ofDocument] at ht
      have hmem := List.mem_filter.1 (List.mem_of_getLast? ht)
      exact hnone ⟨t, hmem.1, of_decide_eq_true hmem.2, Template.tokenTags_ne_nil_iff.2 htags⟩

/-- **Whose token fields a catalog finds.** Those of the last node of the name that lists a tag, and
none if there is no such node. They are the token fields of the template of the name exactly when
this template lists a tag or no node of the name does. -/
theorem tokenFields_belong :
    (ofDocument doc).ListsTokensOf name
      ((doc.nodes.filter (·.name = name)).filter (·.tokenTags ≠ [])).getLast? ∧
    (∀ tag, (ofDocument doc).tokenFieldFor? name tag =
      (((doc.nodes.filter (·.name = name)).filter (·.tokenTags ≠ [])).getLast?).bind fun t =>
        (t.fieldForToken? tag).map (·.name)) ∧
    ((ofDocument doc).ListsTokensOf name ((ofDocument doc).template? name) ↔
      ((∃ t ∈ doc.nodes, t.name = name ∧ t.tokenTags ≠ []) →
        ∃ t ∈ (ofDocument doc).template? name, t.tokenTags ≠ [])) :=
  ⟨listsTokensOf_last doc name, (listsTokensOf_last doc name).tokenFieldFor?,
    listsTokensOf_template?_iff doc name⟩

end OfDocument

/-- A node is declared with a token field that recognizes a tag, and then anew with one that
recognizes none. -/
def redeclaring : Document where
  nodes := [
    { name := "N"
      fields := [.ofSpec { name := "Old", declaredType := "SyntaxToken", kinds := ["word"] }] },
    { name := "N", fields := [.ofSpec { name := "New", declaredType := "SyntaxToken" }] }]

/-- **The field that is found for a tag need not be one of the template's**: the node as it was
declared last has neither a field for the tag nor any field of the name that is found. -/
theorem tokenFieldFor?_redeclaring :
    ¬(ofDocument redeclaring).ListsTokensOf "N" ((ofDocument redeclaring).template? "N") ∧
      (ofDocument redeclaring).tokenFieldFor? "N" "word" = some "Old" ∧
      ∃ t ∈ (ofDocument redeclaring).template? "N", t.fieldForToken? "word" = none ∧
        ∀ f ∈ Units.specs t.fields, f.name ≠ "Old" := by
  have htemplate := template?_ofDocument redeclaring "N"
  refine ⟨?_, ?_, ?_⟩
  · rw [listsTokensOf_template?_iff, htemplate]
    decide
  · rw [(listsTokensOf_last redeclaring "N").tokenFieldFor?]
    decide
  · rw [htemplate]
    decide

end Schema.Catalog

end SyntaxGraph
