import SyntaxGraph.Emission
import SyntaxGraph.Proofs.Graph.Indexing

/-!
# What emission means

The text of a node by recursion on the graph, with the path of its ancestors in place of a stack: a
node writes nothing below itself and nothing without an instance, and otherwise what its units write
in order. What tokens and children write is said letter by letter, and small lemmas show that the
texts of the emission are these. The main statement says that working off the stack writes the text
of the recursion, from any roots and along any edges, cycles and shared children included.

The pending work of a machine has a text of its own, `stackText`, in which leaving a node takes it
off the path. No step changes what is written together with what the pending work still writes.
-/

namespace SyntaxGraph.Emission

/-! ### The text of units -/

/-- The text with a space in place of every comma. -/
def commasToSpaces (s : String) : String :=
  String.ofList (s.toList.map fun c => if c = ',' then ' ' else c)

/-- What a token writes: its text and a space, and nothing if there is no text or an empty one. -/
def tokenText : Option String → String
  | none => ""
  | some s => if s = "" then "" else s ++ " "

/-- What a list of tokens writes: as a token, with spaces for commas. -/
def tokenListText : Option String → String
  | none => ""
  | some s => if s = "" then "" else commasToSpaces s ++ " "

/-- What the children of a node field write, given the text of each of them. Those of a separated
list have a comma and a space between them. -/
def childrenText (kind : FieldKind) (texts : List String) : String :=
  match kind with
  | .separatedNodeList => ", ".intercalate texts
  | _ => String.join texts

mutual

/-- What a unit writes, given what each node field writes. A choice writes the selected alternative,
or the last one when the selection lies beyond it. -/
def renderUnit (nodeField : FieldSpec → String) : FieldUnit → String
  | .single f v =>
    match f.kind with
    | .token => tokenText v
    | .tokenList => tokenListText v
    | .singleNode | .nodeList | .separatedNodeList => nodeField f
    | .unknown => ""
  | .choice _ _ cs i => ((renderUnits nodeField cs)[min i (cs.length - 1)]?).getD ""
  | .sequence cs => String.join (renderUnits nodeField cs)

/-- What the units of a forest write, one by one. -/
def renderUnits (nodeField : FieldSpec → String) : List FieldUnit → List String
  | [] => []
  | u :: us => renderUnit nodeField u :: renderUnits nodeField us

end

theorem spaceCommas_eq (s : String) : spaceCommas s = commasToSpaces s := by
  rw [spaceCommas, commasToSpaces, ← String.toList_inj, String.toList_map, String.toList_ofList]

theorem valueText_id (v : Option String) : valueText (fun s => s) v = tokenText v := by
  cases v <;> simp [valueText, tokenText]

theorem valueText_spaceCommas (v : Option String) : valueText spaceCommas v = tokenListText v := by
  cases v <;> simp [valueText, tokenListText, spaceCommas_eq]

theorem childrenText_eq (kind : FieldKind) (texts : List String) :
    childrenText kind texts =
      if kind.needsSeparator then separator.intercalate texts else String.join texts := by
  cases kind <;> rfl

@[simp] theorem childrenText_nil (kind : FieldKind) : childrenText kind [] = "" := by
  cases kind <;> rfl

theorem renderUnits_eq_map (nodeField : FieldSpec → String) (us : List FieldUnit) :
    renderUnits nodeField us = us.map (renderUnit nodeField) := by
  induction us with
  | nil => rw [renderUnits]; rfl
  | cons u us ih => rw [renderUnits, ih]; rfl

/-- A node field writes what its children write, every other field writes its own text. -/
theorem renderUnit_single (nodeField : FieldSpec → String) (f : FieldSpec) (v : Option String) :
    renderUnit nodeField (.single f v) =
      unitText (.single f v) ++ if f.kind.isNode then nodeField f else "" := by
  rw [renderUnit, unitText, valueText_id, valueText_spaceCommas]
  cases f.kind <;> simp [FieldKind.isNode]

theorem renderUnit_choice (nodeField : FieldSpec → String) (n : Option String) (o : Bool)
    (cs : List FieldUnit) (i : Nat) :
    renderUnit nodeField (.choice n o cs i) =
      ((FieldUnit.pick cs i).map (renderUnit nodeField)).getD "" := by
  rw [renderUnit, renderUnits_eq_map, List.getElem?_map]
  rfl

theorem renderUnit_sequence (nodeField : FieldSpec → String) (cs : List FieldUnit) :
    renderUnit nodeField (.sequence cs) = String.join (cs.map (renderUnit nodeField)) := by
  rw [renderUnit, renderUnits_eq_map]

/-! ### The text of a node -/

/-- The text of a node below the nodes of `path`. -/
def nodeText (store : Store) (ix : EdgeIndex) (path : List InstanceId) (id : InstanceId) : String :=
  if ha : id ∈ path then ""
  else
    match hs : store.state? id with
    | none => ""
    | some i =>
      have := Store.dormant_cons_lt hs ha
      String.join (renderUnits (fun f => childrenText f.kind
        ((ix.children id f.name).map fun child => nodeText store ix (id :: path) child)) i.fields)
termination_by store.dormant path

/-- The text of a node field of `owner`, whose children stand below the nodes of `path`. -/
def fieldText (store : Store) (ix : EdgeIndex) (path : List InstanceId) (owner : InstanceId)
    (f : FieldSpec) : String :=
  childrenText f.kind ((ix.children owner f.name).map (nodeText store ix path))

section NodeText

variable {store : Store} {ix : EdgeIndex} {path : List InstanceId} {id : InstanceId}

theorem nodeText_of_mem (ha : id ∈ path) : nodeText store ix path id = "" := by
  rw [nodeText, dif_pos ha]

theorem nodeText_of_none (hs : store.state? id = none) : nodeText store ix path id = "" := by
  rw [nodeText]
  split
  · rfl
  · split
    · rfl
    · simp_all

theorem nodeText_of_some {i : Instance} (ha : id ∉ path) (hs : store.state? id = some i) :
    nodeText store ix path id =
      String.join (i.fields.map (renderUnit (fieldText store ix (id :: path) id))) := by
  rw [nodeText, dif_neg ha]
  split
  · simp_all
  · rename_i j hj
    obtain rfl : i = j := by simpa [hs] using hj
    rw [renderUnits_eq_map]
    rfl

end NodeText

/-! ### The text of the pending work -/

section Pending

variable (store : Store) (ix : EdgeIndex)

/-- The text of a piece of work below the active nodes. -/
def workText (active : List InstanceId) : Work → String
  | .node id => nodeText store ix active id
  | .unit owner u => renderUnit (fieldText store ix active owner) u
  | .text s => s
  | .leave _ => ""

/-- The text of the pending work. What comes after leaving a node stands outside of it. -/
def stackText (active : List InstanceId) : List Work → String
  | [] => ""
  | .leave id :: rest => stackText (active.erase id) rest
  | w :: rest => workText store ix active w ++ stackText active rest

variable {store ix}

theorem stackText_cons {active : List InstanceId} {w : Work} (hw : w.isPlain = true)
    (rest : List Work) :
    stackText store ix active (w :: rest) =
      workText store ix active w ++ stackText store ix active rest := by
  cases w with
  | leave id => simp [Work.isPlain] at hw
  | node id => rfl
  | unit owner u => rfl
  | text s => rfl

theorem stackText_append {active : List InstanceId} {ws : List Work}
    (h : ∀ w ∈ ws, w.isPlain = true) (rest : List Work) :
    stackText store ix active (ws ++ rest) =
      String.join (ws.map (workText store ix active)) ++ stackText store ix active rest := by
  induction ws with
  | nil => simp
  | cons w ws ih =>
    have ih := ih fun v hv => h v (List.mem_cons_of_mem w hv)
    rw [List.cons_append, stackText_cons (h w List.mem_cons_self), ih, List.map_cons,
      String.join_cons, String.append_assoc]

theorem stackText_nodes (active : List InstanceId) (ids : List InstanceId) :
    stackText store ix active (ids.map .node) =
      String.join (ids.map (nodeText store ix active)) := by
  have h : ∀ w ∈ ids.map Work.node, w.isPlain = true := by simp [Work.isPlain]
  calc stackText store ix active (ids.map .node)
      = stackText store ix active (ids.map .node ++ []) := by rw [List.append_nil]
    _ = String.join ((ids.map .node).map (workText store ix active)) := by
      rw [stackText_append h, stackText, String.append_empty]
    _ = String.join (ids.map (nodeText store ix active)) := by rw [List.map_map]; rfl

end Pending

/-! ### What a step leaves to be written -/

section Steps

variable {store : Store} {ix : EdgeIndex}

/-- The children of a node field are written with separators exactly between them. -/
theorem join_childWork (active : List InstanceId) (kind : FieldKind) (ids : List InstanceId) :
    String.join ((childWork kind ids).map (workText store ix active)) =
      childrenText kind (ids.map (nodeText store ix active)) := by
  rw [childrenText_eq]
  cases ids with
  | nil => simp [childWork]
  | cons id ids =>
    simp only [childWork, List.map_cons, String.join_cons, workText]
    induction ids generalizing id with
    | nil => simp
    | cons next ids ih =>
      have ih := ih next
      cases hk : kind.needsSeparator with
      | true =>
        simp only [hk, if_true, List.flatMap_cons, laterChild, List.cons_append, List.nil_append,
          List.map_cons, String.join_cons, workText, String.intercalate_cons_cons] at ih ⊢
        rw [ih, String.append_assoc]
      | false =>
        simp only [hk, Bool.false_eq_true, if_false, List.flatMap_cons, laterChild,
          List.cons_append, List.nil_append, List.map_cons, String.join_cons, workText] at ih ⊢
        rw [ih]

/-- A unit writes its own text and then what the work it leads to writes. -/
theorem renderUnit_eq (active : List InstanceId) (owner : InstanceId) (u : FieldUnit) :
    renderUnit (fieldText store ix active owner) u =
      unitText u ++ String.join ((unitWork ix owner u).map (workText store ix active)) := by
  cases u with
  | single f v =>
    rw [renderUnit_single, unitWork]
    split
    · rw [join_childWork, fieldText]
    · simp
  | choice n o cs i =>
    rw [renderUnit_choice, unitWork, unitText]
    cases FieldUnit.pick cs i with
    | none => simp
    | some u => simp [workText]
  | sequence cs =>
    rw [renderUnit_sequence, unitWork, unitText, List.map_map]
    simp [Function.comp_def, workText]

/-- **One step.** What is written and what the pending work writes make up the same text before and
after a step. -/
theorem out_stackText_step {m n : Machine} (h : step store ix m = some n) :
    n.out ++ stackText store ix n.active n.stack = m.out ++ stackText store ix m.active m.stack := by
  obtain ⟨out, active, stack⟩ := m
  cases stack with
  | nil => simp [step] at h
  | cons w rest =>
    cases w with
    | node id =>
      by_cases ha : id ∈ active
      · simp only [step, ha, if_true, Option.some.injEq] at h
        subst h
        simp [stackText, workText, nodeText_of_mem ha]
      · cases hs : store.state? id with
        | none =>
          simp only [step, ha, if_false, hs, Option.some.injEq] at h
          subst h
          simp [stackText, workText, nodeText_of_none hs]
        | some i =>
          simp only [step, ha, if_false, hs, Option.some.injEq] at h
          subst h
          -- the units stand inside the node, what follows stands outside of it again
          rw [stackText_append (by simp [Work.isPlain])]
          simp [stackText, workText, nodeText_of_some ha hs, Function.comp_def]
    | unit owner u =>
      simp only [step, Option.some.injEq] at h
      subst h
      rw [stackText_append fun w hw => isPlain_of_mem_unitWork hw]
      simp only [stackText, workText, renderUnit_eq, String.append_assoc]
    | text s =>
      simp only [step, Option.some.injEq] at h
      subst h
      simp only [stackText, workText, String.append_assoc]
    | leave id =>
      simp only [step, Option.some.injEq] at h
      subst h
      rfl

theorem stack_eq_nil_of_step_eq_none {m : Machine} (h : step store ix m = none) :
    m.stack = [] := by
  obtain ⟨out, active, stack⟩ := m
  cases stack with
  | nil => rfl
  | cons w rest =>
    exfalso
    cases w with
    | node id =>
      simp only [step] at h
      split at h
      · simp at h
      · split at h <;> simp at h
    | unit owner u => simp [step] at h
    | text s => simp [step] at h
    | leave id => simp [step] at h

/-- **A whole run.** Working writes what the pending work means. -/
theorem out_run (m : Machine) :
    (run store ix m).out = m.out ++ stackText store ix m.active m.stack := by
  induction m using run.induct store ix with
  | case1 m h =>
    rw [run]
    split
    · simp [stack_eq_nil_of_step_eq_none h, stackText]
    · simp_all
  | case2 m n h _ ih =>
    rw [run]
    split
    · simp_all
    · rename_i k hk
      obtain rfl : n = k := by simpa [h] using hk
      rw [ih, out_stackText_step h]

/-- Roots write, in order, the text of each with no ancestors. -/
theorem out_run_nodes (store : Store) (ix : EdgeIndex) (roots : List InstanceId) :
    (run store ix ⟨"", [], roots.map .node⟩).out =
      String.join (roots.map (nodeText store ix [])) := by
  rw [out_run, stackText_nodes, String.empty_append]

end Steps

/-- **Emission is its recursive meaning.** The text of the roots is, in order, the text of each root
with no ancestors. -/
theorem emitIndexed_eq_join (roots : List InstanceId) (store : Store) (ix : EdgeIndex) :
    emitIndexed roots store ix = String.join (roots.map (nodeText store ix [])) :=
  out_run_nodes store ix roots

/-- A field with a name and a type. -/
def fieldOf (name declaredType : String) : FieldSpec :=
  { name, declaredType }

/-- The types whose values are written, one for each kind. -/
theorem classify_written : FieldKind.classify "SyntaxToken" = .token ∧
    FieldKind.classify "SyntaxList<SyntaxToken>" = .tokenList ∧
    FieldKind.classify "BlockSyntax" = .singleNode ∧ FieldKind.classify "SyntaxList" = .nodeList ∧
    FieldKind.classify "SeparatedSyntaxList" = .separatedNodeList := by
  decide

/-- Two nodes, each of them a child of the other. The first selects an alternative beyond its last
one. -/
def tangle : Store :=
  [(⟨1⟩, ⟨⟨1⟩, default, [.single (fieldOf "Open" "SyntaxToken") (some "("),
      .single (fieldOf "Names" "SyntaxList<SyntaxToken>") (some "a,b"),
      .ofSpec (fieldOf "Items" "SeparatedSyntaxList"),
      .choice none false [.single (fieldOf "No" "SyntaxToken") (some "no"),
        .sequence [.single (fieldOf "Yes" "SyntaxToken") (some "yes"),
          .single (fieldOf "Blank" "SyntaxToken") (some "")]] 5,
      .ofSpec (fieldOf "Rest" "SyntaxList")]⟩),
    (⟨2⟩, ⟨⟨2⟩, default, [.single (fieldOf "Word" "SyntaxToken") (some "x"),
      .ofSpec (fieldOf "Outer" "BlockSyntax")]⟩)]

/-- The edges between the two nodes, and one to a node without an instance. -/
def tangleEdges : List Edge :=
  [⟨⟨1⟩, "Items", ⟨2⟩⟩, ⟨⟨1⟩, "Rest", ⟨2⟩⟩, ⟨⟨2⟩, "Outer", ⟨1⟩⟩, ⟨⟨1⟩, "Items", ⟨3⟩⟩,
    ⟨⟨1⟩, "Items", ⟨2⟩⟩, ⟨⟨1⟩, "Rest", ⟨2⟩⟩]

section Tangle

variable {path : List InstanceId}

theorem nodeText_tangle_first (hpath : ⟨1⟩ ∉ path) :
    nodeText tangle (.build tangleEdges) path ⟨1⟩ =
      let inner := nodeText tangle (.build tangleEdges) (⟨1⟩ :: path) ⟨2⟩
      String.join ["( ", "a b ", ", ".intercalate [inner, "", inner], "yes ", inner, inner] := by
  have hchildren : (EdgeIndex.build tangleEdges).children ⟨1⟩ "Items" = [⟨2⟩, ⟨3⟩, ⟨2⟩] ∧
      (EdgeIndex.build tangleEdges).children ⟨1⟩ "Rest" = [⟨2⟩, ⟨2⟩] := by
    simp only [EdgeIndex.children_build]
    decide
  have hmissing : nodeText tangle (.build tangleEdges) (⟨1⟩ :: path) ⟨3⟩ = "" :=
    nodeText_of_none (by decide)
  have hcommas : commasToSpaces "a,b" = "a b" := by decide
  rw [nodeText_of_some hpath rfl]
  simp [FieldUnit.ofSpec, fieldOf, FieldSpec.kind, classify_written, renderUnit, renderUnits,
    tokenText, tokenListText, hcommas, fieldText, childrenText, hchildren, hmissing]

theorem nodeText_tangle_second (hpath : ⟨2⟩ ∉ path) :
    nodeText tangle (.build tangleEdges) path ⟨2⟩ =
      "x " ++ nodeText tangle (.build tangleEdges) (⟨2⟩ :: path) ⟨1⟩ := by
  have hchildren : (EdgeIndex.build tangleEdges).children ⟨2⟩ "Outer" = [⟨1⟩] := by
    rw [EdgeIndex.children_build]
    decide
  rw [nodeText_of_some hpath rfl]
  simp [FieldUnit.ofSpec, fieldOf, FieldSpec.kind, classify_written, renderUnit, tokenText,
    fieldText, childrenText, hchildren]

end Tangle

theorem emitIndexed_tangle :
    emitIndexed [⟨1⟩, ⟨2⟩, ⟨3⟩, ⟨2⟩] tangle (.build tangleEdges) =
      "( a b x , , x yes x x x ( a b , , yes x ( a b , , yes " := by
  rw [emitIndexed_eq_join]
  have hfirst : nodeText tangle (.build tangleEdges) [] ⟨1⟩ = "( a b x , , x yes x x " := by
    rw [nodeText_tangle_first (by simp), nodeText_tangle_second (by decide),
      nodeText_of_mem (by decide)]
    decide
  have hsecond : nodeText tangle (.build tangleEdges) [] ⟨2⟩ = "x ( a b , , yes " := by
    rw [nodeText_tangle_second (by simp), nodeText_tangle_first (by decide),
      nodeText_of_mem (by decide)]
    decide
  have hmissing : nodeText tangle (.build tangleEdges) [] ⟨3⟩ = "" :=
    nodeText_of_none (by decide)
  simp [hfirst, hsecond, hmissing]

end SyntaxGraph.Emission
