import Mathlib.Data.List.Infix
import SyntaxGraph.Proofs.Schema.Templates
import SyntaxGraph.Proofs.Text.Bytes

/-!
# What a catalog finds

A catalog is filled by going through the nodes of a document once, and of two nodes that claim a
name or a tag the later one has it. So looking up a key finds the last node that has the key; names
and tags may repeat as they like, and do so independently of each other. The names come out in
increasing order and without repetition, whatever order the table of names has them in.
-/

namespace SyntaxGraph.Schema.Catalog

/-! ### The last node with a key -/

theorem lookup_map_pair (keys : List String) (x : α) (key : String) :
    (keys.map (·, x)).lookup key = if key ∈ keys then some x else none := by
  induction keys with
  | nil => rfl
  | cons k keys ih =>
    by_cases hk : key = k
    · simp [hk]
    · have hbeq : (key == k) = false := by simpa using hk
      simp [List.lookup_cons, hbeq, ih, hk]

/-- A table of things under their keys has under each key the last thing with this key. -/
theorem getElem?_table_flatMap (keys : α → List String) (xs : List α) (key : String) :
    (table (xs.flatMap fun x => (keys x).map (·, x)))[key]? =
      (xs.filter (key ∈ keys ·)).getLast? := by
  rw [getElem?_table]
  induction xs using List.reverseRecOn with
  | nil => rfl
  | append_singleton xs x ih =>
    rw [List.flatMap_append, List.reverse_append, List.lookup_append, ih, List.filter_append,
      List.getLast?_append, List.flatMap_singleton, ← List.map_reverse, lookup_map_pair]
    congr 1
    by_cases hkey : key ∈ keys x <;> simp [hkey]

theorem getElem?_table_map (name : α → String) (xs : List α) (key : String) :
    (table (xs.map fun x => (name x, x)))[key]? = (xs.filter (name · = key)).getLast? := by
  have hkeys : (xs.map fun x => (name x, x)) = xs.flatMap fun x => [name x].map (·, x) := by
    rw [List.map_eq_flatMap]
    rfl
  rw [hkeys, getElem?_table_flatMap fun x => [name x]]
  simp only [List.mem_singleton, eq_comm]

/-- The entries of a table may be computed before it is filled or after looking up. -/
theorem getElem?_table_map_snd (f : α → β) (entries : List (String × α)) (key : String) :
    (table (entries.map (Prod.map id f)))[key]? = (table entries)[key]?.map f := by
  rw [getElem?_table, getElem?_table, ← List.map_reverse]
  induction entries.reverse with
  | nil => rfl
  | cons e entries ih =>
    obtain ⟨k, x⟩ := e
    rw [List.map_cons, Prod.map_apply, List.lookup_cons, List.lookup_cons, ih, id_eq]
    split <;> rfl

section OfDocument

variable (doc : Document)

theorem template?_ofDocument (name : String) :
    (ofDocument doc).template? name = (doc.nodes.filter (·.name = name)).getLast? :=
  getElem?_table_map Template.name doc.nodes name

theorem isSome_template?_iff {name : String} :
    ((ofDocument doc).template? name).isSome = true ↔ ∃ t ∈ doc.nodes, t.name = name := by
  rw [template?_ofDocument, List.getLast?_isSome, ne_eq, List.filter_eq_nil_iff]
  simp only [decide_eq_true_eq, not_forall, not_not, exists_prop]

/-! ### The names -/

/-- A name is found exactly when it is one of the names. -/
theorem mem_names_iff_isSome {name : String} :
    name ∈ (ofDocument doc).names ↔ ((ofDocument doc).template? name).isSome = true := by
  have hsort : name ∈ (ofDocument doc).names ↔ name ∈ (ofDocument doc).byName.keys :=
    (List.mergeSort_perm _ _).mem_iff
  rw [hsort, Std.HashMap.mem_keys, ← Std.HashMap.isSome_getElem?_iff_mem]
  rfl

theorem pairwise_names :
    (ofDocument doc).names.Pairwise fun m n => Text.bytes m < Text.bytes n := by
  have hsorted : (ofDocument doc).names.Pairwise fun m n => m ≤ n := by
    have htrans : ∀ a b c : String, decide (a ≤ b) = true → decide (b ≤ c) = true →
        decide (a ≤ c) = true := by
      intro a b c hab hbc
      simpa using String.le_trans (by simpa using hab) (by simpa using hbc)
    have htotal : ∀ a b : String, (decide (a ≤ b) || decide (b ≤ a)) = true := by
      intro a b
      simpa using String.le_total a b
    have hpairs := List.pairwise_mergeSort htrans htotal (ofDocument doc).byName.keys
    exact hpairs.imp fun hmn => by simpa using hmn
  have hnodup : (ofDocument doc).names.Nodup :=
    (List.mergeSort_perm _ _).nodup_iff.2 Std.HashMap.nodup_keys
  refine hsorted.imp₂ (fun m n hle hne => Text.bytes_lt_bytes ?_) hnodup
  exact String.not_le.1 fun hge => hne (String.le_antisymm hle hge)

theorem size_ofDocument : (ofDocument doc).size = (ofDocument doc).names.length := by
  rw [size, ← Std.HashMap.length_keys]
  exact (List.mergeSort_perm _ _).length_eq.symm

theorem filterNames_eq (c : Catalog) (part : String) :
    c.filterNames part =
      c.names.filter fun name =>
        (Text.lowercase part).toList <:+: (Text.lowercase name).toList := by
  rw [filterNames]
  refine List.filter_congr fun name _ => ?_
  rw [Bool.eq_iff_iff, decide_eq_true_iff, Text.occurs_iff]

/-- **What a catalog finds.** A name stands for the last node of the document with this name, and a
tag for the last node that lists it. The names are those of the nodes, in the strictly increasing
order of their bytes, and there are as many of them as the catalog is large. They are the names for
which there is a template and a new instance. A filter keeps, in this order, the names with the text
in them, both in lower case, and the empty text keeps all. -/
theorem lookups_ofDocument :
    (∀ name, (ofDocument doc).template? name = (doc.nodes.filter (·.name = name)).getLast?) ∧
    (∀ tag, (ofDocument doc).templateForTag? tag = (doc.nodes.filter (tag ∈ ·.kinds)).getLast?) ∧
    ((ofDocument doc).names.Pairwise fun m n => Text.bytes m < Text.bytes n) ∧
    (∀ name, name ∈ (ofDocument doc).names ↔ ∃ t ∈ doc.nodes, t.name = name) ∧
    (ofDocument doc).size = (ofDocument doc).names.length ∧
    (∀ name, ((ofDocument doc).template? name).isSome = true ↔ name ∈ (ofDocument doc).names) ∧
    (∀ name counter,
      ((ofDocument doc).stamp? name counter).isSome = true ↔ name ∈ (ofDocument doc).names) ∧
    (∀ part, (ofDocument doc).filterNames part = (ofDocument doc).names.filter fun name =>
      (Text.lowercase part).toList <:+: (Text.lowercase name).toList) ∧
    (ofDocument doc).filterNames "" = (ofDocument doc).names := by
  refine ⟨template?_ofDocument doc, fun tag => ?_, pairwise_names doc, fun name => ?_,
    size_ofDocument doc, fun name => (mem_names_iff_isSome doc).symm, fun name counter => ?_,
    filterNames_eq _, ?_⟩
  · exact getElem?_table_flatMap Template.kinds doc.nodes tag
  · rw [mem_names_iff_isSome, isSome_template?_iff]
  · rw [stamp?, Option.isSome_map, mem_names_iff_isSome]
  · have hempty : (Text.lowercase "").toList = [] := rfl
    rw [filterNames_eq, List.filter_eq_self]
    intro name _
    rw [hempty, decide_eq_true_iff]
    exact List.nil_infix

end OfDocument

/-- A template without fields. -/
def fieldless (name : String) (kinds : List String) : Template :=
  { name, kinds, fields := [] }

/-- A document that declares one name twice and lists one tag for two names. -/
def gridDocument : Document where
  nodes := [fieldless "GridNode" ["grid"], fieldless "Öse" ["loop"],
    fieldless "Gridnote" ["note", "grid"], fieldless "GridNode" ["cell"]]

theorem lookups_gridDocument :
    (ofDocument gridDocument).template? "GridNode" = some (fieldless "GridNode" ["cell"]) ∧
      (ofDocument gridDocument).templateForTag? "grid" =
        some (fieldless "Gridnote" ["note", "grid"]) ∧
      (ofDocument gridDocument).names = ["GridNode", "Gridnote", "Öse"] ∧
      (ofDocument gridDocument).size = 3 ∧
      (ofDocument gridDocument).filterNames "iDn" = ["GridNode", "Gridnote"] ∧
      (ofDocument gridDocument).filterNames "öS" = ["Öse"] := by
  obtain ⟨htemplate, htag, hsorted, hmem, hsize, -, -, hfilter, -⟩ :=
    lookups_ofDocument gridDocument
  have hnames : (ofDocument gridDocument).names = ["GridNode", "Gridnote", "Öse"] := by
    have hincreasing : ["GridNode", "Gridnote", "Öse"].Pairwise fun m n =>
        Text.bytes m < Text.bytes n := by decide
    have hnodup : (ofDocument gridDocument).names.Nodup := by
      refine hsorted.imp ?_
      rintro m _ hlt rfl
      exact List.lt_irrefl _ hlt
    have hperm : (ofDocument gridDocument).names.Perm ["GridNode", "Gridnote", "Öse"] := by
      refine (List.perm_ext_iff_of_nodup hnodup (by decide)).2 fun name => ?_
      rw [hmem]
      simp only [gridDocument, fieldless, List.mem_cons, List.not_mem_nil, or_false]
      grind
    exact hperm.eq_of_pairwise (fun a b _ _ hab hba => absurd hba (List.lt_asymm hab)) hsorted
      hincreasing
  simp only [htemplate, htag, hsize, hfilter, hnames]
  decide

end SyntaxGraph.Schema.Catalog
