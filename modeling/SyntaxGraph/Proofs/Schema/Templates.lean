import SyntaxGraph.Schema.Catalog
import SyntaxGraph.Table

/-!
# The templates of a catalog

A catalog finds for a tag the last template of its document that lists the tag. A template that was
read from text is bare: no field has a text, and every choice selects its first alternative.
-/

namespace SyntaxGraph

/-! ### Bare units -/

mutual

/-- The unit without texts and with the first alternative of every choice selected. -/
def FieldUnit.bare : FieldUnit → FieldUnit
  | .single f _ => .single f none
  | .choice n o cs _ => .choice n o (Units.bare cs) 0
  | .sequence cs => .sequence (Units.bare cs)

/-- The forest without texts and with the first alternative of every choice selected. -/
def Units.bare : List FieldUnit → List FieldUnit
  | [] => []
  | u :: us => u.bare :: Units.bare us

end

theorem Units.bare_eq_map (us : List FieldUnit) : Units.bare us = us.map FieldUnit.bare := by
  induction us with
  | nil => rw [Units.bare]; rfl
  | cons u us ih => rw [Units.bare, ih]; rfl

theorem Units.bare_of_mem {us : List FieldUnit} (h : Units.bare us = us) {u : FieldUnit}
    (hu : u ∈ us) : u.bare = u := by
  induction us with
  | nil => simp at hu
  | cons v us ih =>
    simp only [Units.bare, List.cons.injEq] at h
    rcases List.mem_cons.1 hu with rfl | hu
    · exact h.1
    · exact ih h.2 hu

theorem Units.bare_append {us vs : List FieldUnit} (hu : Units.bare us = us)
    (hv : Units.bare vs = vs) : Units.bare (us ++ vs) = us ++ vs := by
  rw [Units.bare_eq_map] at hu hv ⊢
  rw [List.map_append, hu, hv]

namespace Schema

/-! ### Reading -/

theorem exists_of_bind_eq_ok {x : Except ε α} {f : α → Except ε β} {b : β}
    (h : (x >>= f) = .ok b) : ∃ a, x = .ok a ∧ f a = .ok b := by
  cases x with
  | error e => simp [bind, Except.bind] at h
  | ok a => exact ⟨a, rfl, h⟩

theorem exists_of_map_eq_ok {x : Except ε α} {f : α → β} {b : β} (h : x.map f = .ok b) :
    ∃ a, x = .ok a ∧ f a = b := by
  cases x with
  | error e => simp [Except.map] at h
  | ok a => exact ⟨a, rfl, by simpa [Except.map] using h⟩

theorem bare_of_readField {n : Xml.Node} {u : FieldUnit} (h : readField n = .ok u) : u.bare = u := by
  unfold readField at h
  obtain ⟨_, -, h⟩ := exists_of_bind_eq_ok h
  obtain ⟨_, -, h⟩ := exists_of_bind_eq_ok h
  obtain ⟨_, -, h⟩ := exists_of_bind_eq_ok h
  obtain ⟨_, -, h⟩ := exists_of_bind_eq_ok h
  obtain ⟨_, -, h⟩ := exists_of_bind_eq_ok h
  cases h
  rw [FieldUnit.ofSpec, FieldUnit.bare]

mutual

theorem bare_of_readUnit : ∀ {n : Xml.Node} {u : FieldUnit}, readUnit n = .ok (some u) → u.bare = u
  | .text _, u, h => by simp [readUnit] at h
  | .element name attributes content, u, h => by
    rw [readUnit] at h
    split at h
    · obtain ⟨v, hv, hvu⟩ := exists_of_map_eq_ok h
      obtain rfl : v = u := Option.some.inj hvu
      exact bare_of_readField hv
    · split at h
      · obtain ⟨cs, hcs, h⟩ := exists_of_bind_eq_ok h
        obtain ⟨o, -, h⟩ := exists_of_bind_eq_ok h
        cases h
        rw [FieldUnit.bare, bare_of_readUnits hcs]
      · split at h
        · obtain ⟨cs, hcs, h⟩ := exists_of_bind_eq_ok h
          cases h
          rw [FieldUnit.bare, bare_of_readUnits hcs]
        · simp at h

theorem bare_of_readUnits : ∀ {ns : List Xml.Node} {us : List FieldUnit},
    readUnits ns = .ok us → Units.bare us = us
  | [], us, h => by
    rw [readUnits] at h
    cases h
    rw [Units.bare]
  | n :: ns, us, h => by
    rw [readUnits] at h
    obtain ⟨u, hu, h⟩ := exists_of_bind_eq_ok h
    obtain ⟨vs, hvs, h⟩ := exists_of_bind_eq_ok h
    cases h
    refine Units.bare_append ?_ (bare_of_readUnits hvs)
    cases u with
    | none => rw [Option.toList_none, Units.bare]
    | some u => rw [Option.toList_some, Units.bare, Units.bare, bare_of_readUnit hu]

end

theorem bare_of_readTemplate {n : Xml.Node} {t : Template} (h : readTemplate n = .ok t) :
    Units.bare t.fields = t.fields := by
  unfold readTemplate at h
  obtain ⟨_, -, h⟩ := exists_of_bind_eq_ok h
  obtain ⟨fields, hfields, h⟩ := exists_of_bind_eq_ok h
  obtain ⟨_, -, h⟩ := exists_of_bind_eq_ok h
  cases h
  exact bare_of_readUnits hfields

namespace Document

/-- Every template of the document is bare. -/
def IsBare (doc : Document) : Prop :=
  ∀ t ∈ doc.nodes, Units.bare t.fields = t.fields

theorem IsBare.addDeclaration {doc doc' : Document} {n : Xml.Node} (hdoc : doc.IsBare)
    (h : doc.addDeclaration n = .ok doc') : doc'.IsBare := by
  unfold Document.addDeclaration at h
  split at h
  · obtain ⟨p, -, rfl⟩ := exists_of_map_eq_ok h
    exact hdoc
  · split at h
    · obtain ⟨a, -, rfl⟩ := exists_of_map_eq_ok h
      exact hdoc
    · split at h
      · obtain ⟨t, ht, rfl⟩ := exists_of_map_eq_ok h
        intro s hs
        rcases List.mem_append.1 hs with hs | hs
        · exact hdoc s hs
        · obtain rfl : s = t := by simpa using hs
          exact bare_of_readTemplate ht
      · cases h
        exact hdoc

theorem IsBare.foldlM {ns : List Xml.Node} {doc doc' : Document} (hdoc : doc.IsBare)
    (h : ns.foldlM Document.addDeclaration doc = .ok doc') : doc'.IsBare := by
  induction ns generalizing doc with
  | nil =>
    cases h
    exact hdoc
  | cons n ns ih =>
    rw [List.foldlM_cons] at h
    obtain ⟨doc₁, h₁, h⟩ := exists_of_bind_eq_ok h
    exact ih (hdoc.addDeclaration h₁) h

/-- **A document that was read from text is bare.** -/
theorem isBare_of_parse {source : String} {doc : Document} (h : parse source = .ok doc) :
    doc.IsBare := by
  unfold parse at h
  split at h
  · unfold ofXml at h
    split at h
    · exact IsBare.foldlM (by simp [IsBare]) h
    · simp at h
  · simp at h

end Document

/-! ### Looking up -/

namespace Catalog

theorem getElem?_table (entries : List (String × α)) (key : String) :
    (table entries)[key]? = entries.reverse.lookup key := by
  have h : ∀ t : Std.HashMap String α,
      (entries.foldl (fun t e => t.insert e.1 e.2) t)[key]? =
        (entries.reverse.lookup key).or t[key]? := by
    induction entries with
    | nil => intro t; simp
    | cons e entries ih =>
      obtain ⟨k, a⟩ := e
      intro t
      rw [List.foldl_cons, ih, Std.HashMap.getElem?_insert, List.reverse_cons, List.lookup_append,
        Option.or_assoc]
      congr 1
      by_cases hk : k = key
      · simp [hk]
      · have hk' : (key == k) = false := by simpa using Ne.symm hk
        simp [hk, List.lookup_cons, hk']
  unfold table
  simpa using h ∅

/-- The template of a tag is the last one of the document that lists the tag. -/
theorem templateForTag?_ofDocument (doc : Document) (tag : String) :
    (ofDocument doc).templateForTag? tag =
      (doc.nodes.flatMap fun t => t.kinds.map (·, t)).reverse.lookup tag :=
  getElem?_table _ tag

theorem mem_nodes_of_templateForTag? {doc : Document} {tag : String} {t : Template}
    (h : (ofDocument doc).templateForTag? tag = some t) : t ∈ doc.nodes := by
  rw [templateForTag?_ofDocument] at h
  have hmem : (tag, t) ∈ doc.nodes.flatMap fun t => t.kinds.map (·, t) :=
    List.mem_reverse.1 (Table.mem_of_lookup h)
  simp only [List.mem_flatMap, List.mem_map, Prod.mk.injEq] at hmem
  obtain ⟨s, hs, _, _, _, rfl⟩ := hmem
  exact hs

theorem parse_eq_ok {source : String} {doc : Document}
    (h : (Document.parse source).toOption = some doc) : parse source = .ok (ofDocument doc) := by
  cases hdoc : Document.parse source with
  | error e => simp [hdoc, Except.toOption] at h
  | ok doc' =>
    obtain rfl : doc' = doc := by simpa [hdoc, Except.toOption] using h
    rw [parse, hdoc]
    rfl

/-- Every template that the catalog finds for a tag is bare. -/
def IsBare (c : Catalog) : Prop :=
  ∀ tag t, c.templateForTag? tag = some t → Units.bare t.fields = t.fields

/-- **A catalog that was read from text is bare.** -/
theorem isBare_of_parse {source : String} {c : Catalog} (hc : parse source = .ok c) : c.IsBare := by
  obtain ⟨doc, hdoc, rfl⟩ := exists_of_map_eq_ok hc
  intro tag t ht
  exact Document.isBare_of_parse hdoc t (mem_nodes_of_templateForTag? ht)

end Catalog

end Schema

end SyntaxGraph
