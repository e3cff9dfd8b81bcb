import Mathlib.Data.List.Perm.Basic
import SyntaxGraph.Outline

/-!
# Drawing an outline

What a drawing writes, line by line, whatever it is drawn from. `Draws s d es e` says that the
drawing `d` comes to `e` by writing the entries `es`, one for each line that is taken off the stack;
an entry is marked when its node was shown before, and otherwise it puts the lines of its children
on the stack.

The entries say everything about the drawing: the text is theirs, the ids that are shown are those
of the entries without a mark, and each line that was on the stack or was put there by such an entry
has its entry, or is still waiting. `Writes s roots es` says that the entries are those of the whole
outline. An outline drawn from an image of a source has the images of the entries.
-/

namespace SyntaxGraph.Outline

/-! ### One line -/

/-- What a line that was taken off the stack has written. -/
structure Entry (α : Type) where
  line : Line α
  /-- The node was shown before. -/
  again : Bool

/-- The text of an entry. -/
def Entry.text (s : Source α) (x : Entry α) : String :=
  x.line.lead ++ s.label x.line.node ++ if x.again then " (shown above)\n" else "\n"

/-- The nodes whose children are listed, in the order of their entries. -/
def expanded (es : List (Entry α)) : List α :=
  (es.filter (!·.again)).map (·.line.node)

@[simp] theorem expanded_nil : expanded ([] : List (Entry α)) = [] :=
  rfl

@[simp] theorem expanded_again (l : Line α) (es : List (Entry α)) :
    expanded (⟨l, true⟩ :: es) = expanded es :=
  rfl

@[simp] theorem expanded_new (l : Line α) (es : List (Entry α)) :
    expanded (⟨l, false⟩ :: es) = l.node :: expanded es :=
  rfl

section Step

variable {s : Source α} {out : String} {shown : List InstanceId} {l : Line α} {rest : List (Line α)}

theorem step_again (h : s.id l.node ∈ shown) :
    step s ⟨out, shown, l :: rest⟩ = some ⟨out ++ Entry.text s ⟨l, true⟩, shown, rest⟩ := by
  simp only [step, h, if_true, Entry.text, String.append_assoc]

theorem step_new (h : s.id l.node ∉ shown) :
    step s ⟨out, shown, l :: rest⟩ = some ⟨out ++ Entry.text s ⟨l, false⟩, s.id l.node :: shown,
      childLines l.below (s.children l.node) ++ rest⟩ := by
  simp only [step, h, if_false, Entry.text, String.append_assoc, Bool.false_eq_true]

theorem stack_eq_nil_of_step {d : Drawing α} (h : step s d = none) : d.stack = [] := by
  obtain ⟨out, shown, stack⟩ := d
  cases stack with
  | nil => rfl
  | cons l rest =>
    by_cases hid : s.id l.node ∈ shown
    · simp [step_again hid] at h
    · simp [step_new hid] at h

theorem step_of_stack_eq_nil {d : Drawing α} (h : d.stack = []) : step s d = none := by
  simp only [step, h]

/-- The lines of the children are about the children, in order. -/
theorem nodes_childLines (indent : String) (cs : List (String × α)) :
    (childLines indent cs).map (·.node) = cs.map (·.2) := by
  fun_induction childLines indent cs with
  | case1 => rfl
  | case2 => rfl
  | case3 field n c cs ih =>
    simp only [List.map_cons] at ih ⊢
    rw [ih]

end Step

/-! ### Some lines in a row -/

/-- The drawing `d` comes to `e` by taking one line after the other off its stack, which write the
entries `es`. -/
inductive Draws (s : Source α) : Drawing α → List (Entry α) → Drawing α → Prop where
  | done (d : Drawing α) : Draws s d [] d
  | next {d d' e : Drawing α} {l : Line α} {rest : List (Line α)} {es : List (Entry α)}
    (hstack : d.stack = l :: rest) (hstep : step s d = some d') (h : Draws s d' es e) :
    Draws s d (⟨l, decide (s.id l.node ∈ d.shown)⟩ :: es) e

section Draws

variable {s : Source α} {d e : Drawing α} {es : List (Entry α)}

theorem Draws.again {out : String} {shown : List InstanceId} {l : Line α} {rest : List (Line α)}
    (hid : s.id l.node ∈ shown) (h : Draws s ⟨out ++ Entry.text s ⟨l, true⟩, shown, rest⟩ es e) :
    Draws s ⟨out, shown, l :: rest⟩ (⟨l, true⟩ :: es) e := by
  have hnext := Draws.next rfl (step_again hid) h
  rwa [decide_eq_true hid] at hnext

theorem Draws.new {out : String} {shown : List InstanceId} {l : Line α} {rest : List (Line α)}
    (hid : s.id l.node ∉ shown)
    (h : Draws s ⟨out ++ Entry.text s ⟨l, false⟩, s.id l.node :: shown,
      childLines l.below (s.children l.node) ++ rest⟩ es e) :
    Draws s ⟨out, shown, l :: rest⟩ (⟨l, false⟩ :: es) e := by
  have hnext := Draws.next rfl (step_new hid) h
  rwa [decide_eq_false hid] at hnext

/-- Induction on the lines: the first one is either about a node that was shown, or about a new one
whose children come next. -/
@[elab_as_elim]
theorem Draws.linewise {motive : ∀ d es e, Draws s d es e → Prop}
    (done : ∀ d, motive d [] d (.done d))
    (again : ∀ {out shown l rest es e} (hid : s.id l.node ∈ shown)
      (h : Draws s ⟨out ++ Entry.text s ⟨l, true⟩, shown, rest⟩ es e),
      motive _ es e h → motive ⟨out, shown, l :: rest⟩ (⟨l, true⟩ :: es) e (.again hid h))
    (new : ∀ {out shown l rest es e} (hid : s.id l.node ∉ shown)
      (h : Draws s ⟨out ++ Entry.text s ⟨l, false⟩, s.id l.node :: shown,
        childLines l.below (s.children l.node) ++ rest⟩ es e),
      motive _ es e h → motive ⟨out, shown, l :: rest⟩ (⟨l, false⟩ :: es) e (.new hid h))
    {d : Drawing α} {es : List (Entry α)} {e : Drawing α} (h : Draws s d es e) :
    motive d es e h := by
  induction h with
  | done d => exact done d
  | @next d d' e l rest es hstack hstep h ih =>
    obtain ⟨out, shown, stack⟩ := d
    obtain rfl : stack = l :: rest := hstack
    by_cases hid : s.id l.node ∈ shown
    · obtain rfl := Option.some.inj ((step_again hid).symm.trans hstep)
      simpa only [hid, decide_true] using again hid h ih
    · obtain rfl := Option.some.inj ((step_new hid).symm.trans hstep)
      simpa only [hid, decide_false] using new hid h ih

/-- The text is that of the entries. -/
theorem Draws.out_eq (h : Draws s d es e) :
    e.out = d.out ++ String.join (es.map (Entry.text s)) := by
  induction h using Draws.linewise with
  | done d => simp
  | again _ _ ih => rw [ih, List.map_cons, String.join_cons, String.append_assoc]
  | new _ _ ih => rw [ih, List.map_cons, String.join_cons, String.append_assoc]

/-- The ids that are shown are those of the entries without a mark. -/
theorem Draws.shown_eq (h : Draws s d es e) :
    e.shown = ((expanded es).map s.id).reverse ++ d.shown := by
  induction h using Draws.linewise with
  | done d => rfl
  | again _ _ ih => rw [ih, expanded_again]
  | new _ _ ih =>
    rw [ih, expanded_new, List.map_cons, List.reverse_cons, List.append_assoc,
      List.singleton_append]

/-- No id is shown twice. -/
theorem Draws.nodup_shown (h : Draws s d es e) (hd : d.shown.Nodup) : e.shown.Nodup := by
  induction h using Draws.linewise with
  | done d => exact hd
  | again _ _ ih => exact ih hd
  | new hid _ ih => exact ih (List.nodup_cons.2 ⟨hid, hd⟩)

/-- The id of every entry is shown in the end. -/
theorem Draws.id_mem_shown (h : Draws s d es e) : ∀ x ∈ es, s.id x.line.node ∈ e.shown := by
  induction h using Draws.linewise with
  | done d => simp
  | again hid hes ih =>
    refine List.forall_mem_cons.2 ⟨?_, ih⟩
    rw [hes.shown_eq]
    exact List.mem_append_right _ hid
  | new _ hes ih =>
    refine List.forall_mem_cons.2 ⟨?_, ih⟩
    rw [hes.shown_eq]
    exact List.mem_append_right _ List.mem_cons_self

/-- An entry is marked exactly when its id was shown before or an earlier entry has it. -/
theorem Draws.again_iff (h : Draws s d es e) {before after : List (Entry α)} {x : Entry α}
    (hes : es = before ++ x :: after) :
    x.again = true ↔
      s.id x.line.node ∈ d.shown ∨ s.id x.line.node ∈ before.map fun y => s.id y.line.node := by
  induction h using Draws.linewise generalizing before with
  | done d => simp at hes
  | @again out shown l rest es e hid _ ih =>
    cases before with
    | nil =>
      obtain ⟨rfl, -⟩ := List.cons.inj hes
      simp [hid]
    | cons y before =>
      obtain ⟨rfl, htail⟩ := List.cons.inj hes
      rw [ih htail, List.map_cons, List.mem_cons]
      constructor
      · exact Or.imp_right .inr
      · rintro (hshown | heq | hbefore)
        · exact .inl hshown
        · exact .inl (heq ▸ hid)
        · exact .inr hbefore
  | @new out shown l rest es e hid _ ih =>
    cases before with
    | nil =>
      obtain ⟨rfl, -⟩ := List.cons.inj hes
      simp [hid]
    | cons y before =>
      obtain ⟨rfl, htail⟩ := List.cons.inj hes
      rw [ih htail, List.map_cons, List.mem_cons, List.mem_cons, or_assoc, or_left_comm]

open scoped List in
/-- Every line that was on the stack, and every child of an entry without a mark, has one entry or
is still waiting. -/
theorem Draws.nodes_perm (h : Draws s d es e) :
    es.map (·.line.node) ++ e.stack.map (·.node) ~
      d.stack.map (·.node) ++ (expanded es).flatMap fun n => (s.children n).map (·.2) := by
  induction h using Draws.linewise with
  | done d => simp
  | again _ _ ih => exact ih.cons _
  | @new out shown l rest es e _ _ ih =>
    rw [List.map_append, nodes_childLines] at ih
    rw [expanded_new, List.flatMap_cons, List.map_cons, List.cons_append, List.map_cons,
      List.cons_append]
    refine (ih.trans ?_).cons _
    rw [← List.append_assoc]
    exact List.perm_append_comm.append_right _

/-- What is true of the nodes on the stack, and with a node of its children, is true of all nodes
that have an entry. -/
theorem Draws.forall_node {P : α → Prop} (h : Draws s d es e)
    (hchildren : ∀ n, P n → ∀ c ∈ s.children n, P c.2) (hstack : ∀ l ∈ d.stack, P l.node) :
    ∀ x ∈ es, P x.line.node := by
  induction h using Draws.linewise with
  | done d => simp
  | @again out shown l rest es e _ _ ih =>
    have hrest : ∀ k ∈ rest, P k.node := fun k hk => hstack k (List.mem_cons_of_mem l hk)
    exact List.forall_mem_cons.2 ⟨hstack l List.mem_cons_self, ih hrest⟩
  | @new out shown l rest es e _ _ ih =>
    have hl := hstack l List.mem_cons_self
    refine List.forall_mem_cons.2 ⟨hl, ih fun k hk => ?_⟩
    rcases List.mem_append.1 hk with hk | hk
    · have hmem : k.node ∈ (s.children l.node).map (·.2) := by
        rw [← nodes_childLines l.below]
        exact List.mem_map_of_mem hk
      obtain ⟨c, hc, heq⟩ := List.mem_map.1 hmem
      rw [← heq]
      exact hchildren l.node hl c hc
    · exact hstack k (List.mem_cons_of_mem l hk)

/-- A drawing has only one way to the end of its stack. -/
theorem Draws.unique (h : Draws s d es e) (hend : e.stack = []) {es' : List (Entry α)}
    {e' : Drawing α} (h' : Draws s d es' e') (hend' : e'.stack = []) : es = es' ∧ e = e' := by
  induction h generalizing es' with
  | done d =>
    cases h' with
    | done => exact ⟨rfl, rfl⟩
    | next hstack => simp [hend] at hstack
  | next hstack hstep _ ih =>
    cases h' with
    | done => simp [hend'] at hstack
    | next hstack' hstep' h' =>
      obtain ⟨rfl, rfl⟩ := List.cons.inj (hstack.symm.trans hstack')
      obtain rfl := Option.some.inj (hstep.symm.trans hstep')
      obtain ⟨rfl, rfl⟩ := ih hend h'
      exact ⟨rfl, rfl⟩

end Draws

/-! ### All lines -/

/-- The drawing `d` comes to `e`, and there no line is left. -/
def Ends (s : Source α) (d e : Drawing α) : Prop :=
  (∃ es, Draws s d es e) ∧ e.stack = []

/-- The entries are those of the whole outline of the roots: after them no line is left. -/
def Writes (s : Source α) (roots : List α) (es : List (Entry α)) : Prop :=
  ∃ e, Draws s (start roots) es e ∧ e.stack = []

section Ends

variable {s : Source α} {d e f : Drawing α} {roots : List α}

theorem Ends.of_none (h : step s d = none) : Ends s d d :=
  ⟨⟨[], .done d⟩, stack_eq_nil_of_step h⟩

theorem Ends.of_step (h : step s d = some e) (he : Ends s e f) : Ends s d f := by
  obtain ⟨⟨es, hes⟩, hend⟩ := he
  cases hstack : d.stack with
  | nil => simp [step_of_stack_eq_nil hstack] at h
  | cons l rest => exact ⟨⟨_, .next hstack h hes⟩, hend⟩

theorem Ends.exists_writes (h : Ends s (start roots) e) : ∃ es, Writes s roots es := by
  obtain ⟨⟨es, hes⟩, hend⟩ := h
  exact ⟨es, e, hes, hend⟩

/-- The text of a whole outline is that of its entries. -/
theorem Ends.out_eq (h : Ends s (start roots) e) {es : List (Entry α)} (hes : Writes s roots es) :
    e.out = String.join (es.map (Entry.text s)) := by
  obtain ⟨⟨es', hes'⟩, hend'⟩ := h
  obtain ⟨e', hdraws, hend⟩ := hes
  obtain ⟨rfl, rfl⟩ := hdraws.unique hend hes' hend'
  rw [hdraws.out_eq, start, String.empty_append]

end Ends

section Graphs

variable {parameters : Parameters} {g : Graph}

/-- A graph is drawn to the end of the stack. -/
theorem ends_drawGraph (store : Store) (ix : EdgeIndex) (showIds : Bool) (d : Drawing InstanceId) :
    Ends (graphSource store ix showIds) d (drawGraph store ix showIds d) := by
  induction d using drawGraph.induct store ix showIds with
  | case1 d h =>
    rw [drawGraph]
    split
    · exact .of_none h
    · simp_all
  | case2 d e h _ ih =>
    rw [drawGraph]
    split
    · simp_all
    · rename_i k hk
      obtain rfl : e = k := by simpa [h] using hk
      exact ih.of_step h

/-- What the outline of a graph is drawn from. -/
def sourceOf (parameters : Parameters) (g : Graph) : Source InstanceId :=
  graphSource (.ofGraph g) (.build g.edges) (showsIds parameters)

theorem exists_writes_ofGraph (parameters : Parameters) (g : Graph) :
    ∃ es, Writes (sourceOf parameters g) g.roots es :=
  (ends_drawGraph (.ofGraph g) (.build g.edges) (showsIds parameters) _).exists_writes

/-- The outline of a graph is the text of its entries. -/
theorem ofGraph_eq {es : List (Entry InstanceId)}
    (h : Writes (sourceOf parameters g) g.roots es) :
    ofGraph parameters g = String.join (es.map (Entry.text (sourceOf parameters g))) :=
  (ends_drawGraph (.ofGraph g) (.build g.edges) (showsIds parameters) _).out_eq h

end Graphs

section Trees

variable {parameters : Parameters} {root : ConvertedNode}

/-- A tree is drawn to the end of the stack. -/
theorem ends_drawTree (showIds : Bool) (d : Drawing ConvertedNode) :
    Ends (treeSource showIds) d (drawTree showIds d) := by
  induction d using drawTree.induct showIds with
  | case1 d h =>
    rw [drawTree]
    split
    · exact .of_none h
    · simp_all
  | case2 d e h _ ih =>
    rw [drawTree]
    split
    · simp_all
    · rename_i k hk
      obtain rfl : e = k := by simpa [h] using hk
      exact ih.of_step h

theorem exists_writes_ofConverted (parameters : Parameters) (root : ConvertedNode) :
    ∃ es, Writes (treeSource (showsIds parameters)) [root] es :=
  (ends_drawTree (showsIds parameters) _).exists_writes

/-- The outline of a converted tree is the text of its entries. -/
theorem ofConverted_eq {es : List (Entry ConvertedNode)}
    (h : Writes (treeSource (showsIds parameters)) [root] es) :
    ofConverted parameters root =
      String.join (es.map (Entry.text (treeSource (showsIds parameters)))) :=
  (ends_drawTree (showsIds parameters) _).out_eq h

end Trees

/-! ### Images -/

/-- The line of the image of a node. -/
def Line.map (φ : α → β) (l : Line α) : Line β :=
  { l with node := φ l.node }

/-- The drawing with the images of its nodes, under their new ids. -/
def Drawing.map (ρ : InstanceId → InstanceId) (φ : α → β) (d : Drawing α) : Drawing β :=
  ⟨d.out, d.shown.map ρ, d.stack.map (·.map φ)⟩

/-- The entry of the image of a node. -/
def Entry.map (φ : α → β) (x : Entry α) : Entry β :=
  ⟨x.line.map φ, x.again⟩

/-- The second source is an image of the first one, under new ids. -/
structure Source.Map (s : Source α) (t : Source β) (ρ : InstanceId → InstanceId) (φ : α → β) :
    Prop where
  id : ∀ a, t.id (φ a) = ρ (s.id a)
  label : ∀ a, t.label (φ a) = s.label a
  children : ∀ a, t.children (φ a) = (s.children a).map fun c => (c.1, φ c.2)

theorem start_map (ρ : InstanceId → InstanceId) (φ : α → β) (roots : List α) :
    start (roots.map φ) = (start roots).map ρ φ := by
  simp only [start, Drawing.map, List.map_map, List.map_nil]
  rfl

theorem childLines_map (φ : α → β) (indent : String) (cs : List (String × α)) :
    childLines indent (cs.map fun c => (c.1, φ c.2)) = (childLines indent cs).map (·.map φ) := by
  fun_induction childLines indent cs with
  | case1 => rfl
  | case2 field n => rfl
  | case3 field n c cs ih =>
    simp only [List.map_cons, childLines] at ih ⊢
    rw [ih]
    rfl

section Map

variable {s : Source α} {t : Source β} {ρ : InstanceId → InstanceId} {φ : α → β}

/-- **One line.** The next line of the image is that of the source, and the drawings after it are
again images of each other. -/
theorem Source.Map.step_eq (h : s.Map t ρ φ) (hρ : ρ.Injective) (d : Drawing α) :
    step t (d.map ρ φ) = (step s d).map (Drawing.map ρ φ) := by
  obtain ⟨out, shown, stack⟩ := d
  cases stack with
  | nil => rfl
  | cons l rest =>
    have hshown : ρ (s.id l.node) ∈ shown.map ρ ↔ s.id l.node ∈ shown :=
      List.mem_map_of_injective hρ
    simp only [step, Drawing.map, List.map_cons, Line.map, h.id, h.label, h.children, hshown,
      childLines_map]
    split
    · rfl
    · simp only [Option.map_some, Drawing.map, List.map_append, List.map_cons]
      rfl

/-- The entry of the next line of the image is the image of that of the source. -/
theorem Source.Map.entry_eq (h : s.Map t ρ φ) (hρ : ρ.Injective) (d : Drawing α) (l : Line α) :
    (⟨l.map φ, decide (t.id (l.map φ).node ∈ (d.map ρ φ).shown)⟩ : Entry β) =
      Entry.map φ ⟨l, decide (s.id l.node ∈ d.shown)⟩ := by
  have hshown : t.id (l.map φ).node ∈ (d.map ρ φ).shown ↔ s.id l.node ∈ d.shown := by
    rw [Line.map, h.id]
    exact List.mem_map_of_injective hρ
  simp only [Entry.map, hshown]

/-- **All lines.** A drawing from the image writes the images of the entries. -/
theorem Source.Map.draws (h : s.Map t ρ φ) (hρ : ρ.Injective) {d e : Drawing α}
    {es : List (Entry α)} (hd : Draws s d es e) :
    Draws t (d.map ρ φ) (es.map (Entry.map φ)) (e.map ρ φ) := by
  induction hd with
  | done d => exact .done _
  | @next d d' e l rest es hstack hstep _ ih =>
    have hstep' : step t (d.map ρ φ) = some (d'.map ρ φ) := by rw [h.step_eq hρ, hstep]; rfl
    have hstack' : (d.map ρ φ).stack = l.map φ :: rest.map (·.map φ) := by
      rw [Drawing.map, hstack, List.map_cons]
    rw [List.map_cons, ← h.entry_eq hρ]
    exact .next hstack' hstep' ih

/-- Every drawing from the image is the image of a drawing. -/
theorem Source.Map.exists_draws (h : s.Map t ρ φ) (hρ : ρ.Injective) {d : Drawing α}
    {e' : Drawing β} {es' : List (Entry β)} (hd : Draws t (d.map ρ φ) es' e') :
    ∃ es e, Draws s d es e ∧ es' = es.map (Entry.map φ) ∧ e' = e.map ρ φ := by
  generalize hd' : d.map ρ φ = d' at hd
  induction hd generalizing d with
  | done => exact ⟨[], d, .done d, rfl, hd'.symm⟩
  | @next d₁ d₂ e' k rest es' hstack hstep _ ih =>
    subst hd'
    obtain ⟨d₂, hstep₁, rfl⟩ := Option.map_eq_some_iff.1 ((h.step_eq hρ d).symm.trans hstep)
    obtain ⟨es, e, hes, rfl, rfl⟩ := ih rfl
    obtain ⟨l, rest₁, hstack₁, rfl, -⟩ := List.map_eq_cons_iff.1 hstack
    exact ⟨_, e, .next hstack₁ hstep₁ hes, by rw [List.map_cons, ← h.entry_eq hρ], rfl⟩

/-- The outline of the images of the roots has the images of the entries. -/
theorem Source.Map.writes (h : s.Map t ρ φ) (hρ : ρ.Injective) {roots : List α}
    {es : List (Entry α)} (hes : Writes s roots es) :
    Writes t (roots.map φ) (es.map (Entry.map φ)) := by
  obtain ⟨e, hes, hend⟩ := hes
  refine ⟨e.map ρ φ, ?_, by rw [Drawing.map, hend, List.map_nil]⟩
  rw [start_map ρ]
  exact h.draws hρ hes

/-- The entries of the images of the roots are images of entries. -/
theorem Source.Map.exists_writes (h : s.Map t ρ φ) (hρ : ρ.Injective) {roots : List α}
    {es' : List (Entry β)} (hes : Writes t (roots.map φ) es') :
    ∃ es, Writes s roots es ∧ es' = es.map (Entry.map φ) := by
  obtain ⟨e', hdraws, hend⟩ := hes
  rw [start_map ρ] at hdraws
  obtain ⟨es, e, hes, rfl, rfl⟩ := h.exists_draws hρ hdraws
  exact ⟨es, ⟨e, hes, List.map_eq_nil_iff.1 hend⟩, rfl⟩

/-- The image of an entry has its text. -/
theorem Source.Map.text_map (h : s.Map t ρ φ) (x : Entry α) :
    Entry.text t (x.map φ) = Entry.text s x := by
  rw [Entry.text, Entry.text, ← h.label]
  rfl

/-- The images of the entries have the same text. -/
theorem Source.Map.join_text (h : s.Map t ρ φ) (es : List (Entry α)) :
    String.join ((es.map (Entry.map φ)).map (Entry.text t)) =
      String.join (es.map (Entry.text s)) := by
  rw [List.map_map]
  congr 1
  exact List.map_congr_left fun x _ => h.text_map x

end Map

end SyntaxGraph.Outline
