import SyntaxGraph.Conversion.Fill
import SyntaxGraph.Proofs.Schema.Templates

/-!
# Resolved units

Decisions are made for all choices of a forest at once, as a list of paths, and then applied one
after the other. Together they come to one pass over the forest, `settleUnits`, in which every choice
takes its first accepted alternative. Filling in texts is such a pass too. Neither pass changes the
bare form of a unit, and what speaks for an alternative depends on its bare form only, so the two
rounds of decisions can be read off the template.
-/

namespace SyntaxGraph.Conversion

/-! ### Decisions as one pass -/

mutual

/-- The unit in which every choice takes its first accepted alternative. -/
def settleUnit (accept : FieldUnit → Bool) : FieldUnit → FieldUnit
  | .single f v => .single f v
  | .choice n o cs i => .choice n o (settleUnits accept cs) ((cs.findIdx? accept).getD i)
  | .sequence cs => .sequence (settleUnits accept cs)

/-- The forest in which every choice takes its first accepted alternative. -/
def settleUnits (accept : FieldUnit → Bool) : List FieldUnit → List FieldUnit
  | [] => []
  | u :: us => settleUnit accept u :: settleUnits accept us

end

theorem settleUnits_eq_map (accept : FieldUnit → Bool) (us : List FieldUnit) :
    settleUnits accept us = us.map (settleUnit accept) := by
  induction us with
  | nil => rw [settleUnits]; rfl
  | cons u us ih => rw [settleUnits, ih]; rfl

/-- The forest after a decision; a path that leads to no choice changes nothing. -/
def withDecision (us : List FieldUnit) (d : List Nat × Nat) : List FieldUnit :=
  (Units.withChoice? us d.2 d.1).getD us

theorem fields_applyDecision (i : Instance) (d : List Nat × Nat) :
    applyDecision i d = { i with fields := withDecision i.fields d } := by
  unfold applyDecision Instance.withChoice? withDecision
  cases Units.withChoice? i.fields d.2 d.1 with
  | none => rfl
  | some us => rfl

theorem foldl_applyDecision (ds : List (List Nat × Nat)) (i : Instance) :
    ds.foldl applyDecision i = { i with fields := ds.foldl withDecision i.fields } := by
  induction ds generalizing i with
  | nil => rfl
  | cons d ds ih => rw [List.foldl_cons, ih, fields_applyDecision, List.foldl_cons]

section Paths

variable (accept : FieldUnit → Bool)

mutual

theorem unitDecisions_cons (k : Nat) : ∀ (path : List Nat) (u : FieldUnit),
    unitDecisions accept (k :: path) u =
      (unitDecisions accept path u).map fun d => (k :: d.1, d.2)
  | path, .single f v => by simp [unitDecisions]
  | path, .choice n o cs i => by
    rw [unitDecisions, unitDecisions, decisionsFrom_cons k path 0 cs, List.map_append]
    congr 1
    cases cs.findIdx? accept <;> rfl
  | path, .sequence cs => by
    rw [unitDecisions, unitDecisions, decisionsFrom_cons k path 0 cs]

theorem decisionsFrom_cons (k : Nat) : ∀ (path : List Nat) (i : Nat) (us : List FieldUnit),
    decisionsFrom accept (k :: path) i us =
      (decisionsFrom accept path i us).map fun d => (k :: d.1, d.2)
  | path, i, [] => by simp [decisionsFrom]
  | path, i, u :: us => by
    rw [decisionsFrom, decisionsFrom, List.cons_append, unitDecisions_cons k (path ++ [i]) u,
      decisionsFrom_cons k path (i + 1) us, List.map_append]

end

mutual

theorem ne_nil_of_mem_unitDecisions : ∀ {path : List Nat} {u : FieldUnit} {d : List Nat × Nat},
    path ≠ [] → d ∈ unitDecisions accept path u → d.1 ≠ []
  | path, .single f v, d, _, h => by simp [unitDecisions] at h
  | path, .choice n o cs i, d, hpath, h => by
    rw [unitDecisions, List.mem_append] at h
    rcases h with h | h
    · obtain ⟨j, -, rfl⟩ := Option.map_eq_some_iff.1 (Option.mem_toList.1 h)
      exact hpath
    · exact ne_nil_of_mem_decisionsFrom h
  | path, .sequence cs, d, _, h => by
    rw [unitDecisions] at h
    exact ne_nil_of_mem_decisionsFrom h

theorem ne_nil_of_mem_decisionsFrom : ∀ {path : List Nat} {i : Nat} {us : List FieldUnit}
    {d : List Nat × Nat}, d ∈ decisionsFrom accept path i us → d.1 ≠ []
  | path, i, [], d, h => by simp [decisionsFrom] at h
  | path, i, u :: us, d, h => by
    rw [decisionsFrom, List.mem_append] at h
    rcases h with h | h
    · exact ne_nil_of_mem_unitDecisions (by simp) h
    · exact ne_nil_of_mem_decisionsFrom h

end

end Paths

/-- A decision below a unit changes the units below it and nothing else. -/
theorem withDecision_below (before after : List FieldUnit) (u : FieldUnit) {path : List Nat}
    (hpath : path ≠ []) (index : Nat) :
    withDecision (before ++ u :: after) (before.length :: path, index) =
      before ++ u.withChildren (withDecision u.children (path, index)) :: after := by
  obtain ⟨j, path, rfl⟩ := List.exists_cons_of_ne_nil hpath
  have hget : (before ++ u :: after)[before.length]? = some u := by simp
  have hself : u.withChildren u.children = u := by cases u <;> rfl
  simp only [withDecision, Units.withChoice?, hget]
  cases Units.withChoice? u.children index (j :: path) with
  | none => simp [hself]
  | some cs => simp

/-- Decisions below a choice or a sequence are decisions on the units below it. -/
theorem foldl_withDecision_below (before after : List FieldUnit) (u : FieldUnit)
    (hu : ∀ f v, u ≠ .single f v) (ds : List (List Nat × Nat)) (hds : ∀ d ∈ ds, d.1 ≠ []) :
    (ds.map fun d => (before.length :: d.1, d.2)).foldl withDecision (before ++ u :: after) =
      before ++ u.withChildren (ds.foldl withDecision u.children) :: after := by
  induction ds generalizing u with
  | nil => cases u <;> rfl
  | cons d ds ih =>
    have hd := hds d List.mem_cons_self
    have hchildren := u.children_withChildren (withDecision u.children d) hu
    have hu' : ∀ f v, u.withChildren (withDecision u.children d) ≠ .single f v := by
      intro f v
      cases u with
      | single g w => exact absurd rfl (hu g w)
      | choice => simp [FieldUnit.withChildren]
      | sequence => simp [FieldUnit.withChildren]
    have htwice : ∀ cs ds, (u.withChildren cs).withChildren ds = u.withChildren ds := by
      intro cs ds
      cases u <;> rfl
    rw [List.map_cons, List.foldl_cons, withDecision_below before after u hd,
      ih _ hu' fun e he => hds e (List.mem_cons_of_mem d he), hchildren, htwice, List.foldl_cons]

mutual

theorem foldl_unitDecisions (accept : FieldUnit → Bool) : ∀ (u : FieldUnit)
    (before after : List FieldUnit),
    (unitDecisions accept [before.length] u).foldl withDecision (before ++ u :: after) =
      before ++ settleUnit accept u :: after
  | .single f v, before, after => by simp [unitDecisions, settleUnit]
  | .choice n o cs i, before, after => by
    have hbelow := foldl_withDecision_below before after
      (.choice n o cs ((cs.findIdx? accept).getD i)) (by simp) (decisionsFrom accept [] 0 cs)
      (fun d hd => ne_nil_of_mem_decisionsFrom accept hd)
    have hcs := foldl_decisionsFrom accept cs []
    have hfirst : (((cs.findIdx? accept).map ([before.length], ·)).toList).foldl withDecision
          (before ++ .choice n o cs i :: after) =
        before ++ .choice n o cs ((cs.findIdx? accept).getD i) :: after := by
      cases cs.findIdx? accept with
      | none => rfl
      | some j => simp [withDecision, Units.withChoice?]
    simp only [List.nil_append, List.length_nil, FieldUnit.children] at hcs hbelow
    rw [unitDecisions, List.foldl_append, hfirst, decisionsFrom_cons, hbelow, hcs, settleUnit]
    rfl
  | .sequence cs, before, after => by
    have hbelow := foldl_withDecision_below before after (.sequence cs) (by simp)
      (decisionsFrom accept [] 0 cs) (fun d hd => ne_nil_of_mem_decisionsFrom accept hd)
    have hcs := foldl_decisionsFrom accept cs []
    simp only [List.nil_append, List.length_nil, FieldUnit.children] at hcs hbelow
    rw [unitDecisions, decisionsFrom_cons, hbelow, hcs, settleUnit]
    rfl

theorem foldl_decisionsFrom (accept : FieldUnit → Bool) : ∀ (us before : List FieldUnit),
    (decisionsFrom accept [] before.length us).foldl withDecision (before ++ us) =
      before ++ settleUnits accept us
  | [], before => by simp [decisionsFrom, settleUnits]
  | u :: us, before => by
    have hu := foldl_unitDecisions accept u before us
    have hus := foldl_decisionsFrom accept us (before ++ [settleUnit accept u])
    simp only [List.length_append, List.length_singleton, List.append_assoc,
      List.singleton_append] at hus
    rw [decisionsFrom, List.foldl_append, List.nil_append, hu, hus, settleUnits]

end

/-- **Decisions come to one pass**: every choice takes its first accepted alternative. -/
theorem resolve_eq (accept : FieldUnit → Bool) (i : Instance) :
    resolve accept i = { i with fields := settleUnits accept i.fields } := by
  have h := foldl_decisionsFrom accept i.fields []
  unfold resolve decisions
  rw [foldl_applyDecision]
  congr 1

/-! ### Texts as one pass -/

mutual

/-- The unit in which every field has the text that `text` gives it for its old one. -/
def mapUnitTexts (text : FieldSpec → Option String → Option String) : FieldUnit → FieldUnit
  | .single f v => .single f (text f v)
  | .choice n o cs i => .choice n o (mapTexts text cs) i
  | .sequence cs => .sequence (mapTexts text cs)

/-- The forest in which every field has the text that `text` gives it for its old one. -/
def mapTexts (text : FieldSpec → Option String → Option String) : List FieldUnit → List FieldUnit
  | [] => []
  | u :: us => mapUnitTexts text u :: mapTexts text us

end

theorem mapTexts_eq_map (text : FieldSpec → Option String → Option String) (us : List FieldUnit) :
    mapTexts text us = us.map (mapUnitTexts text) := by
  induction us with
  | nil => rw [mapTexts]; rfl
  | cons u us ih => rw [mapTexts, ih]; rfl

section Texts

variable (text text' : FieldSpec → Option String → Option String)

mutual

theorem mapUnitTexts_mapUnitTexts : ∀ u : FieldUnit,
    mapUnitTexts text (mapUnitTexts text' u) = mapUnitTexts (fun f v => text f (text' f v)) u
  | .single f v => by simp only [mapUnitTexts]
  | .choice n o cs i => by simp only [mapUnitTexts, mapTexts_mapTexts cs]
  | .sequence cs => by simp only [mapUnitTexts, mapTexts_mapTexts cs]

theorem mapTexts_mapTexts : ∀ us : List FieldUnit,
    mapTexts text (mapTexts text' us) = mapTexts (fun f v => text f (text' f v)) us
  | [] => by simp only [mapTexts]
  | u :: us => by simp only [mapTexts, mapUnitTexts_mapUnitTexts u, mapTexts_mapTexts us]

end

mutual

theorem mapUnitTexts_id : ∀ u : FieldUnit, mapUnitTexts (fun _ v => v) u = u
  | .single f v => by simp only [mapUnitTexts]
  | .choice n o cs i => by simp only [mapUnitTexts, mapTexts_id cs]
  | .sequence cs => by simp only [mapUnitTexts, mapTexts_id cs]

theorem mapTexts_id : ∀ us : List FieldUnit, mapTexts (fun _ v => v) us = us
  | [] => by simp only [mapTexts]
  | u :: us => by simp only [mapTexts, mapUnitTexts_id u, mapTexts_id us]

end

mutual

theorem withValue_eq_mapUnitTexts (name : String) (value : Option String) : ∀ u : FieldUnit,
    u.withValue name value = mapUnitTexts (fun f v => if f.name = name then value else v) u
  | .single f v => by simp only [FieldUnit.withValue, mapUnitTexts]
  | .choice n o cs i => by
    simp only [FieldUnit.withValue, mapUnitTexts, withValue_eq_mapTexts name value cs]
  | .sequence cs => by
    simp only [FieldUnit.withValue, mapUnitTexts, withValue_eq_mapTexts name value cs]

theorem withValue_eq_mapTexts (name : String) (value : Option String) : ∀ us : List FieldUnit,
    Units.withValue name value us = mapTexts (fun f v => if f.name = name then value else v) us
  | [] => by simp only [Units.withValue, mapTexts]
  | u :: us => by
    simp only [Units.withValue, mapTexts, withValue_eq_mapUnitTexts name value u,
      withValue_eq_mapTexts name value us]

end

end Texts

/-- The token text in the slot of a name. -/
def slotText (node : Tree.Node) (name : String) : Option String :=
  (node.field? name).bind (·.tokenText)

/-- The text of a field after filling in some names: that of the node's slot, or else its own. -/
def filledText (node : Tree.Node) (names : List String) (f : FieldSpec) (v : Option String) :
    Option String :=
  if f.name ∈ names then (slotText node f.name).or v else v

theorem filledText_nil (node : Tree.Node) : filledText node [] = fun _ v => v := by
  funext f v
  simp [filledText]

/-- Filling in one more name before the others. -/
theorem filledText_cons (node : Tree.Node) (name : String) (names : List String) (f : FieldSpec)
    (v : Option String) :
    filledText node names f (if f.name = name then (slotText node name).or v else v) =
      filledText node (name :: names) f v := by
  simp only [filledText, List.mem_cons]
  by_cases hname : f.name = name
  · subst hname
    by_cases hmem : f.name ∈ names
    · cases h : slotText node f.name <;> simp [hmem]
    · simp [hmem]
  · simp [hname]

theorem fields_fillField (node : Tree.Node) (i : Instance) (name : String) :
    fillField node i name = { i with fields := mapTexts (fun f v =>
      if f.name = name then (slotText node name).or v else v) i.fields } := by
  have hslot : (node.field? name).bind (·.tokenText) = slotText node name := rfl
  unfold fillField
  rw [hslot]
  cases slotText node name with
  | none => simp [mapTexts_id]
  | some text => simp [Instance.withValue, withValue_eq_mapTexts]

/-- **Texts are filled in by one pass.** -/
theorem fillTexts_eq (i : Instance) (node : Tree.Node) :
    fillTexts i node =
      { i with fields := mapTexts (filledText node (Units.tokenFieldNames i.fields)) i.fields } := by
  have h : ∀ (names : List String) (j : Instance), names.foldl (fillField node) j =
      { j with fields := mapTexts (filledText node names) j.fields } := by
    intro names
    induction names with
    | nil =>
      intro j
      rw [filledText_nil, mapTexts_id, List.foldl_nil]
    | cons name names ih =>
      intro j
      rw [List.foldl_cons, ih, fields_fillField]
      simp only [mapTexts_mapTexts, filledText_cons]
  exact h _ i

/-! ### The fields of units -/

theorem specs_choice (n : Option String) (o : Bool) (cs : List FieldUnit) (i : Nat) :
    Units.specs [.choice n o cs i] = Units.specs cs := by
  simp [Units.specs, FieldUnit.singles]

theorem specs_sequence (cs : List FieldUnit) : Units.specs [.sequence cs] = Units.specs cs := by
  simp [Units.specs, FieldUnit.singles]

theorem specs_cons (u : FieldUnit) (us : List FieldUnit) :
    Units.specs (u :: us) = Units.specs [u] ++ Units.specs us := by
  simp [Units.specs]

theorem mem_specs_of_mem {us : List FieldUnit} {u : FieldUnit} (hu : u ∈ us) {f : FieldSpec}
    (hf : f ∈ Units.specs [u]) : f ∈ Units.specs us := by
  induction us with
  | nil => simp at hu
  | cons v us ih =>
    rw [specs_cons, List.mem_append]
    rcases List.mem_cons.1 hu with rfl | hu
    · exact .inl hf
    · exact .inr (ih hu)

theorem mem_nodeFieldNames {us : List FieldUnit} {f : FieldSpec} (hf : f ∈ Units.specs us)
    (hkind : f.kind.isNode = true) : f.name ∈ Units.nodeFieldNames us :=
  Units.mem_distinct.2 (List.mem_map_of_mem (List.mem_filter.2 ⟨hf, hkind⟩))

theorem mem_tokenFieldNames {us : List FieldUnit} {f : FieldSpec} (hf : f ∈ Units.specs us)
    (hkind : f.kind.isToken = true) : f.name ∈ Units.tokenFieldNames us :=
  Units.mem_distinct.2 (List.mem_map_of_mem (List.mem_filter.2 ⟨hf, hkind⟩))

/-! ### What does not depend on texts and selections -/

section Bare

mutual

theorem bare_settleUnit (accept : FieldUnit → Bool) : ∀ u : FieldUnit,
    (settleUnit accept u).bare = u.bare
  | .single f v => by simp only [settleUnit]
  | .choice n o cs i => by simp only [settleUnit, FieldUnit.bare, bare_settleUnits accept cs]
  | .sequence cs => by simp only [settleUnit, FieldUnit.bare, bare_settleUnits accept cs]

theorem bare_settleUnits (accept : FieldUnit → Bool) : ∀ us : List FieldUnit,
    Units.bare (settleUnits accept us) = Units.bare us
  | [] => by simp only [settleUnits]
  | u :: us => by
    simp only [settleUnits, Units.bare, bare_settleUnit accept u, bare_settleUnits accept us]

end

mutual

theorem bare_mapUnitTexts (text : FieldSpec → Option String → Option String) : ∀ u : FieldUnit,
    (mapUnitTexts text u).bare = u.bare
  | .single f v => by simp only [mapUnitTexts, FieldUnit.bare]
  | .choice n o cs i => by simp only [mapUnitTexts, FieldUnit.bare, bare_mapTexts text cs]
  | .sequence cs => by simp only [mapUnitTexts, FieldUnit.bare, bare_mapTexts text cs]

theorem bare_mapTexts (text : FieldSpec → Option String → Option String) : ∀ us : List FieldUnit,
    Units.bare (mapTexts text us) = Units.bare us
  | [] => by simp only [mapTexts]
  | u :: us => by
    simp only [mapTexts, Units.bare, bare_mapUnitTexts text u, bare_mapTexts text us]

end

mutual

theorem evidence_bare (tags : ChildTags) : ∀ u : FieldUnit, evidence tags u.bare = evidence tags u
  | .single f v => by simp only [FieldUnit.bare, evidence]
  | .choice n o cs i => by simp only [FieldUnit.bare, evidence, decisionsOf_bare tags cs]
  | .sequence cs => by simp only [FieldUnit.bare, evidence, decisionsOf_bare tags cs]

theorem decisionsOf_bare (tags : ChildTags) : ∀ us : List FieldUnit,
    decisionsOf tags (Units.bare us) = decisionsOf tags us
  | [] => by simp only [Units.bare]
  | u :: us => by
    simp only [Units.bare, decisionsOf, evidence_bare tags u, decisionsOf_bare tags us]

end

mutual

theorem specs_bare_unit : ∀ u : FieldUnit, u.bare.singles.map (·.1) = u.singles.map (·.1)
  | .single f v => by simp only [FieldUnit.bare, FieldUnit.singles, List.map_cons, List.map_nil]
  | .choice n o cs i => by
    simpa only [FieldUnit.bare, FieldUnit.singles, Units.specs] using specs_bare cs
  | .sequence cs => by
    simpa only [FieldUnit.bare, FieldUnit.singles, Units.specs] using specs_bare cs

theorem specs_bare : ∀ us : List FieldUnit, Units.specs (Units.bare us) = Units.specs us
  | [] => by simp only [Units.bare]
  | u :: us => by
    have hus := specs_bare us
    simp only [Units.specs] at hus
    simp only [Units.specs, Units.bare, Units.singles_cons, List.map_append, specs_bare_unit u, hus]

end

theorem findIdx?_congr {accept accept' : FieldUnit → Bool} {us : List FieldUnit}
    (h : ∀ u ∈ us, accept u = accept' u) : us.findIdx? accept = us.findIdx? accept' := by
  induction us with
  | nil => rfl
  | cons u us ih =>
    have ih := ih fun v hv => h v (List.mem_cons_of_mem u hv)
    rw [List.findIdx?_cons, List.findIdx?_cons, h u List.mem_cons_self, ih]

/-- The tags speak for units of the same bare form alike. -/
theorem looksLike_congr (tags : ChildTags) {u v : FieldUnit} (h : u.bare = v.bare) :
    looksLike tags u = looksLike tags v := by
  unfold looksLike
  rw [← evidence_bare tags u, ← evidence_bare tags v, h]

theorem nodeFields_congr {us vs : List FieldUnit} (h : Units.bare us = Units.bare vs) :
    Units.nodeFields us = Units.nodeFields vs := by
  unfold Units.nodeFields
  rw [← specs_bare us, ← specs_bare vs, h]

/-- Converted children speak for units of the same bare form alike. -/
theorem isRealized_congr (fields : List String) {u v : FieldUnit} (h : u.bare = v.bare) :
    isRealized fields u = isRealized fields v := by
  have hlist : Units.bare [u] = Units.bare [v] := by simp only [Units.bare, h]
  unfold isRealized
  rw [nodeFields_congr hlist]

/-- The first round takes the alternative that it would take without the texts. -/
theorem findIdx?_looksLike_mapTexts (tags : ChildTags)
    (text : FieldSpec → Option String → Option String) (us : List FieldUnit) :
    (mapTexts text us).findIdx? (looksLike tags) = us.findIdx? (looksLike tags) := by
  rw [mapTexts_eq_map, List.findIdx?_map]
  exact findIdx?_congr fun u _ => looksLike_congr tags (bare_mapUnitTexts text u)

/-- The second round takes the alternative that it would take without the texts and the first round. -/
theorem findIdx?_isRealized_settleUnits (fields : List String) (accept : FieldUnit → Bool)
    (text : FieldSpec → Option String → Option String) (us : List FieldUnit) :
    (settleUnits accept (mapTexts text us)).findIdx? (isRealized fields) =
      us.findIdx? (isRealized fields) := by
  rw [settleUnits_eq_map, mapTexts_eq_map, List.map_map, List.findIdx?_map]
  refine findIdx?_congr fun u _ => isRealized_congr fields ?_
  simp only [Function.comp_apply, bare_settleUnit, bare_mapUnitTexts]

end Bare

end SyntaxGraph.Conversion
