import SyntaxGraph.Proofs.Schema.Declarations

/-!
# What a schema document must say

Some attributes of a schema document must be there, and others must say a truth value or a count if
they are there. These requirements come in the order in which the document is read. Only the
elements that declare something have requirements: the declarations below the root, and the units
reached from them.

The main statement says what comes of a document. It is read when all requirements are met, and the
result is then the one document that the root element declares. If not, the error is that of the
first requirement that is not met.
-/

namespace SyntaxGraph.Schema

/-! ### Requirements -/

/-- Something that an element must say. -/
inductive Requirement where
  /-- It has a name. -/
  | name (n : Xml.Node)
  /-- The attribute spells a truth value if it is there. -/
  | truth (n : Xml.Node) (key : String)
  /-- The attribute spells a count if it is there. -/
  | count (n : Xml.Node) (key : String)

namespace Requirement

/-- The element says what it must. -/
def Met : Requirement → Prop
  | .name n => ∃ s, n.attribute? "Name" = some s
  | .truth n key => ∀ s, n.attribute? key = some s → ∃ b, SpellsTruth s b
  | .count n key => ∀ s, n.attribute? key = some s → ∃ k, SpellsCount s k

/-- The error when it does not. -/
def error : Requirement → Error
  | .name n => .missingAttribute n.name "Name"
  | .truth n key => .invalidAttribute n.name key ((n.attribute? key).getD "")
  | .count n key => .invalidAttribute n.name key ((n.attribute? key).getD "")

end Requirement

/-- What an element that declares something must say itself. -/
def ownRequirements (n : Xml.Node) : List Requirement :=
  match n.name with
  | "PredefinedNode" => [.name n]
  | "AbstractNode" => [.name n]
  | "Node" => [.name n, .truth n "SkipConvenienceFactories"]
  | "Field" => [.count n "MinCount", .name n, .truth n "Optional", .truth n "Override",
    .truth n "AllowTrailingSeparator"]
  | "Choice" => [.truth n "Optional"]
  | _ => []

mutual

/-- What a unit must say. A choice comes after what it contains. -/
def unitRequirements : Xml.Node → List Requirement
  | .text _ => []
  | .element name attributes content =>
    let self := Xml.Node.element name attributes content
    if name = "Field" then ownRequirements self
    else if name = "Choice" then unitsRequirements content ++ ownRequirements self
    else if name = "Sequence" then unitsRequirements content
    else []

/-- What the units inside an element must say, in order. -/
def unitsRequirements : List Xml.Node → List Requirement
  | [] => []
  | n :: ns => unitRequirements n ++ unitsRequirements ns

end

/-- What a declaration must say. Its units come after its name and before its other attributes. -/
def declarationRequirements (n : Xml.Node) : List Requirement :=
  if n.isNamed "PredefinedNode" then [.name n]
  else if n.isNamed "AbstractNode" then .name n :: unitsRequirements n.content
  else if n.isNamed "Node" then
    .name n :: (unitsRequirements n.content ++ [.truth n "SkipConvenienceFactories"])
  else []

/-- What a document must say, in the order in which it is read. -/
def requirements (root : Xml.Node) : List Requirement :=
  root.content.flatMap declarationRequirements

/-! ### The first that is not met -/

/-- The error of the first requirement that is not met. -/
inductive FirstUnmet : List Requirement → Error → Prop where
  | here {r : Requirement} {rs : List Requirement} (hr : ¬r.Met) : FirstUnmet (r :: rs) r.error
  | later {r : Requirement} {rs : List Requirement} {e : Error} (hr : r.Met)
    (hrs : FirstUnmet rs e) : FirstUnmet (r :: rs) e

namespace FirstUnmet

variable {rs ss : List Requirement} {e e' : Error}

theorem append_right (h : FirstUnmet rs e) : FirstUnmet (rs ++ ss) e := by
  induction h with
  | here hr => exact .here hr
  | later hr _ ih => exact .later hr ih

theorem append_left (hrs : ∀ r ∈ rs, r.Met) (h : FirstUnmet ss e) : FirstUnmet (rs ++ ss) e := by
  induction rs with
  | nil => exact h
  | cons r rs ih =>
    rw [List.forall_mem_cons] at hrs
    exact .later hrs.1 (ih hrs.2)

theorem not_forall (h : FirstUnmet rs e) : ¬∀ r ∈ rs, r.Met := by
  induction h with
  | here hr => exact fun hall => hr (hall _ List.mem_cons_self)
  | later _ _ ih => exact fun hall => ih (List.forall_mem_cons.1 hall).2

theorem unique (h : FirstUnmet rs e) (h' : FirstUnmet rs e') : e = e' := by
  induction h with
  | here hr =>
    cases h' with
    | here _ => rfl
    | later hr' _ => exact absurd hr' hr
  | later hr _ ih =>
    cases h' with
    | here hr' => exact absurd hr hr'
    | later _ h' => exact ih h'

end FirstUnmet

/-- The answer of a reader that reads what must be said, and fails at the first thing that is not.
-/
def Answers (x : Except Error α) (rs : List Requirement) : Prop :=
  match x with
  | .ok _ => ∀ r ∈ rs, r.Met
  | .error e => FirstUnmet rs e

namespace Answers

variable {x : Except Error α} {rs ss : List Requirement}

theorem ok (a : α) : Answers (.ok a : Except Error α) [] := by
  intro r hr
  exact nomatch hr

/-- A reader of one thing that must be said. -/
theorem singleton {r : Requirement} (hok : (∃ a, x = .ok a) ↔ r.Met)
    (herror : ∀ e, x = .error e → e = r.error) : Answers x [r] := by
  cases x with
  | ok a => exact List.forall_mem_singleton.2 (hok.1 ⟨a, rfl⟩)
  | error e =>
    obtain rfl := herror e rfl
    exact .here fun hr => by simpa using hok.2 hr

theorem bind {f : α → Except Error β} (hx : Answers x rs) (hf : ∀ a, Answers (f a) ss) :
    Answers (x >>= f) (rs ++ ss) := by
  cases x with
  | error e => exact FirstUnmet.append_right hx
  | ok a =>
    have ha := hf a
    show Answers (f a) (rs ++ ss)
    cases hfa : f a with
    | error e =>
      rw [hfa] at ha
      exact FirstUnmet.append_left hx ha
    | ok b =>
      rw [hfa] at ha
      exact List.forall_mem_append.2 ⟨hx, ha⟩

theorem map {f : α → β} (hx : Answers x rs) : Answers (x.map f) rs := by
  cases x with
  | error e => exact hx
  | ok a => exact hx

theorem exists_ok_iff (h : Answers x rs) : (∃ a, x = .ok a) ↔ ∀ r ∈ rs, r.Met := by
  cases x with
  | error e => simpa using FirstUnmet.not_forall h
  | ok a => exact ⟨fun _ => h, fun _ => ⟨a, rfl⟩⟩

theorem error_iff (h : Answers x rs) {e : Error} : x = .error e ↔ FirstUnmet rs e := by
  constructor
  · rintro rfl
    exact h
  · intro he
    cases x with
    | error e' => rw [FirstUnmet.unique h he]
    | ok a => exact absurd h he.not_forall

end Answers

/-! ### Reading -/

theorem name_of_isNamed {n : Xml.Node} {key : String} (hn : n.isNamed key = true) :
    n.name = key := by
  cases n with
  | text s => exact nomatch hn
  | element name attributes content => exact eq_of_beq hn

section Attributes

variable {n : Xml.Node} {key : String}

theorem met_truth_iff : (Requirement.truth n key).Met ↔ ∃ b, SaysTruth n key b := by
  simp only [Requirement.Met, SaysTruth]
  cases n.attribute? key <;> simp

theorem met_count_iff : (Requirement.count n key).Met ↔ ∃ k, SaysCount n key k := by
  simp only [Requirement.Met, SaysCount]
  cases n.attribute? key <;> simp

theorem answers_requiredAttribute (hn : n.isNamed key = true) :
    Answers (requiredAttribute n key "Name") [.name n] := by
  refine .singleton (exists_congr fun s => requiredAttribute_eq_ok_iff) fun e h => ?_
  rw [Requirement.error, name_of_isNamed hn, requiredAttribute_eq_error h]

theorem answers_boolAttribute : Answers (boolAttribute n key) [.truth n key] := by
  refine .singleton ?_ fun e h => boolAttribute_eq_error h
  rw [met_truth_iff]
  exact exists_congr fun b => boolAttribute_eq_ok_iff

theorem answers_countAttribute : Answers (countAttribute n key) [.count n key] := by
  refine .singleton ?_ fun e h => countAttribute_eq_error h
  rw [met_count_iff]
  exact exists_congr fun k => countAttribute_eq_ok_iff

end Attributes

theorem answers_readField {n : Xml.Node} (hn : n.isNamed "Field" = true) :
    Answers (readField n) (ownRequirements n) := by
  have hown : ownRequirements n = [.count n "MinCount"] ++ ([.name n] ++ ([.truth n "Optional"] ++
      ([.truth n "Override"] ++ ([.truth n "AllowTrailingSeparator"] ++ [])))) := by
    rw [ownRequirements, name_of_isNamed hn]
    rfl
  rw [hown, readField]
  refine answers_countAttribute.bind fun _ => (answers_requiredAttribute hn).bind fun _ => ?_
  refine answers_boolAttribute.bind fun _ => answers_boolAttribute.bind fun _ => ?_
  exact answers_boolAttribute.bind fun _ => .ok _

mutual

theorem answers_readUnit : ∀ n : Xml.Node, Answers (readUnit n) (unitRequirements n)
  | .text _ => .ok none
  | .element name attributes content => by
    rw [readUnit, unitRequirements]
    split
    · rename_i hname
      subst hname
      exact (answers_readField rfl).map
    · split
      · rename_i hname
        subst hname
        exact (answers_readUnits content).bind fun _ => answers_boolAttribute.bind fun _ => .ok _
      · split
        · rw [← List.append_nil (unitsRequirements content)]
          exact (answers_readUnits content).bind fun _ => .ok _
        · exact .ok none

theorem answers_readUnits : ∀ ns : List Xml.Node, Answers (readUnits ns) (unitsRequirements ns)
  | [] => .ok []
  | n :: ns => by
    rw [readUnits, unitsRequirements, ← List.append_nil (unitsRequirements ns)]
    exact (answers_readUnit n).bind fun _ => (answers_readUnits ns).bind fun _ => .ok _

end

/-! ### Declarations -/

theorem answers_addDeclaration (doc : Document) (n : Xml.Node) :
    Answers (doc.addDeclaration n) (declarationRequirements n) := by
  unfold Document.addDeclaration declarationRequirements
  split
  · rename_i hn
    exact ((answers_requiredAttribute hn).bind fun _ => .ok _).map
  · split
    · rename_i hn
      refine Answers.map ?_
      rw [readAbstractNode, ← List.append_nil (unitsRequirements n.content)]
      refine (answers_requiredAttribute hn).bind fun _ => ?_
      exact (answers_readUnits n.content).bind fun _ => .ok _
    · split
      · rename_i hn
        refine ((answers_requiredAttribute hn).bind fun _ => ?_).map
        refine (answers_readUnits n.content).bind fun _ => ?_
        exact answers_boolAttribute.bind fun _ => .ok _
      · exact .ok doc

theorem answers_foldlM (ns : List Xml.Node) (doc : Document) :
    Answers (ns.foldlM Document.addDeclaration doc) (ns.flatMap declarationRequirements) := by
  induction ns generalizing doc with
  | nil => exact .ok doc
  | cons n ns ih =>
    rw [List.foldlM_cons, List.flatMap_cons]
    exact (answers_addDeclaration doc n).bind ih

/-- **A document is answered by its requirements.** -/
theorem answers_ofXml {root : Xml.Node} (hroot : root.name = "Tree") :
    Answers (Document.ofXml root) (requirements root) := by
  rw [Document.ofXml, if_pos hroot]
  exact answers_foldlM root.content _

/-! ### The elements that count -/

/-- A unit inside an element, or inside choices and sequences inside it. -/
inductive Reached : List Xml.Node → Xml.Node → Prop where
  | here {ns : List Xml.Node} {n : Xml.Node} (hn : n ∈ ns) (hunit : isUnit n = true) : Reached ns n
  | inside {ns : List Xml.Node} {n m : Xml.Node} (hn : n ∈ ns)
    (hgroup : n.isNamed "Choice" = true ∨ n.isNamed "Sequence" = true)
    (hm : Reached n.content m) : Reached ns m

/-- The elements below the root that declare something. -/
inductive Relevant (root : Xml.Node) : Xml.Node → Prop where
  | predefined {n : Xml.Node} (hn : n ∈ root.content) (hname : n.isNamed "PredefinedNode" = true) :
    Relevant root n
  | kind {n : Xml.Node} (hn : n ∈ root.content)
    (hname : n.isNamed "AbstractNode" = true ∨ n.isNamed "Node" = true) : Relevant root n
  | unit {n m : Xml.Node} (hn : n ∈ root.content)
    (hname : n.isNamed "AbstractNode" = true ∨ n.isNamed "Node" = true)
    (hm : Reached n.content m) : Relevant root m

section Reached

variable {n m : Xml.Node} {ns : List Xml.Node}

theorem not_reached_nil : ¬Reached [] m := by
  rintro (⟨hn, -⟩ | ⟨hn, -, -⟩)
  · exact nomatch hn
  · exact nomatch hn

theorem Reached.mono {ms : List Xml.Node} (h : Reached ns m) (hsub : ns ⊆ ms) : Reached ms m := by
  rcases h with ⟨hm, hunit⟩ | ⟨hn, hgroup, hm⟩
  · exact .here (hsub hm) hunit
  · exact .inside (hsub hn) hgroup hm

theorem reached_cons_iff : Reached (n :: ns) m ↔ Reached [n] m ∨ Reached ns m := by
  constructor
  · rintro (⟨hm, hunit⟩ | ⟨hk, hgroup, hm⟩)
    · rcases List.mem_cons.1 hm with rfl | hm
      · exact .inl (.here List.mem_cons_self hunit)
      · exact .inr (.here hm hunit)
    · rcases List.mem_cons.1 hk with rfl | hk
      · exact .inl (.inside List.mem_cons_self hgroup hm)
      · exact .inr (.inside hk hgroup hm)
  · rintro (h | h)
    · exact h.mono (by simp)
    · exact h.mono (List.subset_cons_self n ns)

theorem reached_singleton_iff : Reached [n] m ↔ isUnit n = true ∧ n = m ∨
    (n.isNamed "Choice" = true ∨ n.isNamed "Sequence" = true) ∧ Reached n.content m := by
  constructor
  · rintro (⟨hm, hunit⟩ | ⟨hk, hgroup, hm⟩)
    · obtain rfl := List.mem_singleton.1 hm
      exact .inl ⟨hunit, rfl⟩
    · obtain rfl := List.mem_singleton.1 hk
      exact .inr ⟨hgroup, hm⟩
  · rintro (⟨hunit, rfl⟩ | ⟨hgroup, hm⟩)
    · exact .here List.mem_cons_self hunit
    · exact .inside List.mem_cons_self hgroup hm

end Reached

section

variable {r : Requirement}

mutual

theorem mem_unitRequirements_iff : ∀ n : Xml.Node,
    r ∈ unitRequirements n ↔ ∃ m, Reached [n] m ∧ r ∈ ownRequirements m
  | .text s => by
    simp [unitRequirements, reached_singleton_iff, isUnit, Xml.Node.isNamed]
  | .element name attributes content => by
    rw [unitRequirements]
    split
    · rename_i hname
      subst hname
      simp [reached_singleton_iff, isUnit, Xml.Node.isNamed]
    · split
      · rename_i hname
        subst hname
        -- a choice has a requirement of its own besides those of what is reached through it
        rw [List.mem_append, mem_unitsRequirements_iff content, or_comm]
        simp [reached_singleton_iff, isUnit, Xml.Node.isNamed, Xml.Node.content, or_and_right,
          exists_or]
      · split
        · rename_i hname
          subst hname
          rw [mem_unitsRequirements_iff content]
          simp [reached_singleton_iff, isUnit, Xml.Node.isNamed, Xml.Node.content, or_and_right,
            exists_or, ownRequirements, Xml.Node.name]
        · rename_i hfield hchoice hsequence
          simp [reached_singleton_iff, isUnit, Xml.Node.isNamed, hfield, hchoice, hsequence]

/-- What the units of an element must say is what the units reached in it must say. -/
theorem mem_unitsRequirements_iff : ∀ ns : List Xml.Node,
    r ∈ unitsRequirements ns ↔ ∃ m, Reached ns m ∧ r ∈ ownRequirements m
  | [] => by
    simp [unitsRequirements, not_reached_nil]
  | n :: ns => by
    rw [unitsRequirements, List.mem_append, mem_unitRequirements_iff n,
      mem_unitsRequirements_iff ns]
    have hreached : ∀ m, Reached (n :: ns) m ↔ Reached [n] m ∨ Reached ns m :=
      fun m => reached_cons_iff
    simp only [hreached, or_and_right, exists_or]

end

theorem mem_declarationRequirements_iff {n : Xml.Node} : r ∈ declarationRequirements n ↔
    (n.isNamed "PredefinedNode" = true ∨ n.isNamed "AbstractNode" = true ∨
      n.isNamed "Node" = true) ∧ r ∈ ownRequirements n ∨
    (n.isNamed "AbstractNode" = true ∨ n.isNamed "Node" = true) ∧
      r ∈ unitsRequirements n.content := by
  unfold declarationRequirements
  split
  · rename_i hn
    have ha : n.isNamed "AbstractNode" = false := isNamed_of_ne hn (by decide)
    have ht : n.isNamed "Node" = false := isNamed_of_ne hn (by decide)
    simp [hn, ha, ht, ownRequirements, name_of_isNamed hn]
  · rename_i hp
    split
    · rename_i hn
      simp [hn, ownRequirements, name_of_isNamed hn]
    · rename_i ha
      split
      · rename_i hn
        simp [hn, ownRequirements, name_of_isNamed hn, or_assoc, or_comm]
      · rename_i ht
        simp [hp, ha, ht]

/-- **What a document must say** is what its relevant elements must say. -/
theorem mem_requirements_iff {root : Xml.Node} :
    r ∈ requirements root ↔ ∃ n, Relevant root n ∧ r ∈ ownRequirements n := by
  simp only [requirements, List.mem_flatMap, mem_declarationRequirements_iff,
    mem_unitsRequirements_iff]
  constructor
  · rintro ⟨n, hn, ⟨hname | hname, hr⟩ | ⟨hname, m, hm, hr⟩⟩
    · exact ⟨n, .predefined hn hname, hr⟩
    · exact ⟨n, .kind hn hname, hr⟩
    · exact ⟨m, .unit hn hname hm, hr⟩
  · rintro ⟨m, ⟨hn, hname⟩ | ⟨hn, hname⟩ | @⟨n, _, hn, hname, hm⟩, hr⟩
    · exact ⟨m, hn, .inl ⟨.inl hname, hr⟩⟩
    · exact ⟨m, hn, .inl ⟨.inr hname, hr⟩⟩
    · exact ⟨n, hn, .inr ⟨hname, m, hm, hr⟩⟩

end

/-- **Reading a schema document.** Let a text be a document with the root element `Tree`. It is read
exactly when every relevant element says what it must. The documents that are read are those that
the root element declares, and the error is that of the first requirement that is not met. The
requirements are those of the relevant elements, and of no other. -/
theorem parse_tree {source : String} {root : Xml.Node} (hread : Xml.read? source = some root)
    (hroot : root.name = "Tree") :
    ((∃ doc, Document.parse source = .ok doc) ↔
      ∀ n, Relevant root n → ∀ r ∈ ownRequirements n, r.Met) ∧
    (∀ doc, Document.parse source = .ok doc ↔ doc.DeclaredBy root) ∧
    (∀ e, Document.parse source = .error e ↔ FirstUnmet (requirements root) e) ∧
    ∀ r, r ∈ requirements root ↔ ∃ n, Relevant root n ∧ r ∈ ownRequirements n := by
  have hparse : Document.parse source = Document.ofXml root := by rw [Document.parse, hread]
  have hanswers := answers_ofXml hroot
  rw [hparse]
  refine ⟨hanswers.exists_ok_iff.trans ?_, fun doc => ofXml_eq_ok_iff hroot,
    fun e => hanswers.error_iff, fun r => mem_requirements_iff⟩
  constructor
  · exact fun hall n hn r hr => hall r (mem_requirements_iff.2 ⟨n, hn, hr⟩)
  · intro hall r hr
    obtain ⟨n, hn, hr⟩ := mem_requirements_iff.1 hr
    exact hall n hn r hr

/-- The count of the field in the choice is none. The choice itself is wrong as well, but comes after
the field, and the field inside `X` is not one that counts. -/
def countlessSource : String :=
  "<Tree><X><Field/></X><Node Name='N'><Choice Optional='?'>" ++
    "<Field MinCount='+'/></Choice></Node></Tree>"

theorem parse_countlessSource : ∃ root, Xml.read? countlessSource = some root ∧
    root.name = "Tree" ∧
    Document.parse countlessSource = .error (.invalidAttribute "Field" "MinCount" "+") ∧
    FirstUnmet (requirements root) (.invalidAttribute "Field" "MinCount" "+") ∧
    ¬∀ n, Relevant root n → ∀ r ∈ ownRequirements n, r.Met := by
  have hname : (Xml.read? countlessSource).map Xml.Node.name = some "Tree" := by decide +kernel
  obtain ⟨root, hread, hroot⟩ := Option.map_eq_some_iff.1 hname
  obtain ⟨hok, -, herror, -⟩ := parse_tree hread hroot
  have hparse : Document.parse countlessSource =
      .error (.invalidAttribute "Field" "MinCount" "+") := by decide +kernel
  refine ⟨root, hread, hroot, hparse, (herror _).1 hparse, fun hall => ?_⟩
  obtain ⟨doc, hdoc⟩ := hok.2 hall
  exact absurd (hparse.symm.trans hdoc) (by simp)

end SyntaxGraph.Schema
