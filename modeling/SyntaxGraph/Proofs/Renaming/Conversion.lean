import SyntaxGraph.Proofs.Conversion.Meaning
import SyntaxGraph.Proofs.Conversion.Resolution
import SyntaxGraph.Proofs.Renaming.Texts
import SyntaxGraph.Synchronizer

/-!
# Conversions that differ in their ids

A conversion that starts from another counter does the same with other ids: all of them are moved by
the distance of the counters. The 64-bit words go round, so this is a renaming from any counter to any
other one. It is injective, so two conversions of one text have the same outlines and are emitted and
formatted alike.
-/

namespace SyntaxGraph

/-! ### Moving ids -/

/-- The id that lies `distance` further. -/
def InstanceId.shift (distance : UInt64) (id : InstanceId) : InstanceId :=
  ⟨id.number + distance⟩

/-- The counter that is `distance` ahead. -/
def Counter.shift (distance : UInt64) (counter : Counter) : Counter :=
  ⟨counter.next + distance⟩

theorem InstanceId.shift_injective (distance : UInt64) : (shift distance).Injective := by
  intro a b h
  cases a
  cases b
  exact congrArg _ ((UInt64.add_left_inj distance).1 (InstanceId.mk.inj h))

theorem Counter.shift_sub (a b : Counter) : a.shift (b.next - a.next) = b := by
  cases a
  cases b
  simp only [shift, mk.injEq]
  rw [UInt64.add_comm, UInt64.sub_add_cancel]

theorem Counter.fresh_snd_shift (distance : UInt64) (counter : Counter) :
    (counter.shift distance).fresh.2 = counter.fresh.2.shift distance := by
  simp only [shift, fresh_snd, mk.injEq]
  rw [UInt64.add_assoc, UInt64.add_comm distance, UInt64.add_assoc]

namespace Conversion

open Schema (Catalog)

variable {distance : UInt64}

/-- From a counter that is ahead, `f` gives what `φ` makes of its result, and is ahead afterwards. -/
def Moves (distance : UInt64) (φ : β → β) (f : Counter → β × Counter) : Prop :=
  ∀ counter, f (counter.shift distance) = (φ (f counter).1, (f counter).2.shift distance)

theorem moves_inTurn {φ : β → β} {f : α → Counter → β × Counter} {as : List α}
    (h : ∀ a ∈ as, Moves distance φ (f a)) : Moves distance (List.map φ) (inTurn f as) := by
  induction as with
  | nil => exact fun _ => rfl
  | cons a as ih =>
    intro counter
    have ha := h a List.mem_cons_self counter
    have has := ih (fun b hb => h b (List.mem_cons_of_mem a hb)) (f a counter).2
    simp only [inTurn, ha, has, List.map_cons]

theorem moves_fieldsInTurn {φ : ConvertedNode → ConvertedNode}
    {f : String → Counter → List ConvertedNode × Counter}
    (h : ∀ name, Moves distance (List.map φ) (f name)) (names : List String) :
    Moves distance (List.map fun field => (field.1, field.2.map φ)) (fieldsInTurn f names) := by
  induction names with
  | nil => exact fun _ => rfl
  | cons name names ih =>
    intro counter
    have hname := h name counter
    have hnames := ih (f name counter).2
    simp only [fieldsInTurn, hname, hnames, List.isEmpty_map]
    split <;> rfl

section Instances

variable (ρ : InstanceId → InstanceId)

theorem resolve_rename (accept : FieldUnit → Bool) (i : Instance) :
    resolve accept (i.rename ρ) = (resolve accept i).rename ρ := by
  rw [resolve_eq, resolve_eq]
  rfl

theorem fillValues_rename (i : Instance) (n : Tree.Node) :
    fillValues (i.rename ρ) n = (fillValues i n).rename ρ := by
  have htexts : fillTexts (i.rename ρ) n = (fillTexts i n).rename ρ := by
    rw [fillTexts_eq, fillTexts_eq]
    rfl
  rw [fillValues, htexts, resolve_rename, fillValues]

theorem assemble_rename (i : Instance) (fields : List (String × List ConvertedNode)) :
    assemble (i.rename ρ) (fields.map fun f => (f.1, f.2.map (ConvertedNode.rename ρ))) =
      (assemble i fields).rename ρ := by
  have hnames : (fields.map fun f => (f.1, f.2.map (ConvertedNode.rename ρ))).map (·.1) =
      fields.map (·.1) := by
    rw [List.map_map]
    rfl
  rw [assemble, hnames, resolve_rename, assemble, ConvertedNode.rename_mk]

end Instances

/-- **A conversion moves with its counter.** By induction on the tree: the instance has the moved id,
and the counter reaches the children as far ahead as it was. -/
theorem moves_convertNode (c : Catalog) (n : Tree.Node) :
    Moves distance (Option.map (ConvertedNode.rename (.shift distance))) (convertNode c n) := by
  have hchildren (name : String) :
      Moves distance (List.map (ConvertedNode.rename (.shift distance))) (convertChildren c n name) := by
    intro counter
    have hturn : Moves distance (List.map (Option.map (ConvertedNode.rename (.shift distance))))
        (inTurn (convertNode c) (n.childrenOf name)) :=
      moves_inTurn fun m hm => moves_convertNode c m
    simp only [convertChildren, hturn counter, List.filterMap_map, List.map_filterMap]
    rfl
  intro counter
  cases ht : c.templateForTag? n.tag with
  | none => rw [convertNode_of_none ht, convertNode_of_none ht]; rfl
  | some t =>
    have hstamp : Instance.stamp t (counter.shift distance) =
        ((Instance.stamp t counter).1.rename (.shift distance),
          (Instance.stamp t counter).2.shift distance) := by
      simp only [Instance.stamp, Counter.fresh_snd_shift]
      rfl
    have hfields := moves_fieldsInTurn hchildren (Units.nodeFieldNames t.fields)
      (Instance.stamp t counter).2
    rw [convertNode_of_some ht, convertNode_of_some ht]
    simp only [hstamp, hfields, fillValues_rename, assemble_rename, Option.map_some]
termination_by sizeOf n
decreasing_by exact Tree.Node.sizeOf_lt_of_mem_childrenOf hm

/-- The outcome from another counter: the same report, and the root under moved ids. -/
theorem convert_shift (c : Catalog) (root : Tree.Node) (counter : Counter) (distance : UInt64) :
    (convert c root (counter.shift distance)).1 =
      ⟨(convert c root counter).1.root.map (ConvertedNode.rename (.shift distance)),
        (convert c root counter).1.report⟩ := by
  rw [convert_eq, convert_eq, moves_convertNode c root counter]

end Conversion

/-! ### Synchronization -/

theorem Graph.emit_rename {ρ : InstanceId → InstanceId} (hρ : ρ.Injective) (g : Graph) :
    (g.rename ρ).emit = g.emit := by
  have hedges : (g.rename ρ).edges = g.edges.map (·.rename ρ) := rfl
  rw [emit, roots_rename hρ, Store.ofGraph_rename, hedges, Emission.emit_rename hρ, emit]

/-- The graph under the new ids, with its report. -/
def GraphSync.rename (ρ : InstanceId → InstanceId) (synced : GraphSync) : GraphSync :=
  ⟨synced.graph.rename ρ, synced.report⟩

namespace Synchronizer

theorem toGraph_shift (s : Synchronizer) (source : String) (counter : Counter) (distance : UInt64) :
    (s.toGraph source (counter.shift distance)).1 =
        (s.toGraph source counter).1.map (·.rename (.shift distance)) ∧
      (s.toGraph source (counter.shift distance)).2.1 = (s.toGraph source counter).2.1 := by
  unfold toGraph
  rcases s.catalog.get with ⟨_ | c, catalog⟩
  · exact ⟨rfl, rfl⟩
  · cases Tree.parse source with
    | error e => exact ⟨rfl, rfl⟩
    | ok tree =>
      refine ⟨?_, rfl⟩
      simp only [Conversion.convert_shift, Graph.ofRoot_rename (InstanceId.shift_injective distance)]
      rfl

theorem toCode_rename {ρ : InstanceId → InstanceId} (hρ : ρ.Injective) (s : Synchronizer)
    (g : Graph) : s.toCode (g.rename ρ) = s.toCode g := by
  simp only [toCode, Graph.emit_rename hρ]

theorem roundTrip_eq (s : Synchronizer) (source : String) (counter : Counter) :
    (s.roundTrip source counter).1 = (s.toGraph source counter).1.bind fun synced =>
      (s.toGraph source counter).2.1.toCode synced.graph := by
  unfold roundTrip
  rcases s.toGraph source counter with ⟨_ | synced, s, counter⟩ <;> rfl

theorem roundTrip_shift (s : Synchronizer) (source : String) (counter : Counter)
    (distance : UInt64) :
    (s.roundTrip source (counter.shift distance)).1 = (s.roundTrip source counter).1 := by
  obtain ⟨hresult, hrest⟩ := s.toGraph_shift source counter distance
  rw [roundTrip_eq, roundTrip_eq, hresult, hrest]
  cases (s.toGraph source counter).1 with
  | error e => rfl
  | ok synced => exact toCode_rename (InstanceId.shift_injective distance) _ synced.graph

end Synchronizer

/-- **Ids are mere names.** First, take any graph and a renaming that does not identify ids of the graph
or of the given roots. The text from the renamed roots is that from the roots, and so is the text from
the graph's own roots, which are the renamed ones; and the outline is the same unless it shows ids.
Second, take any text of a tree and any two counters. The two conversions fail alike, or their graphs
differ by an injective renaming and in nothing else; so they have the same raw text, the same text by
any formatter, and the same outlines. -/
theorem texts_of_renaming :
    (∀ (g : Graph) (roots : List InstanceId) (ρ : InstanceId → InstanceId),
      Set.InjOn ρ {id | id ∈ roots ∨ id ∈ g.ids} →
        Emission.emit (roots.map ρ) (.ofGraph (g.rename ρ)) (g.rename ρ).edges =
            Emission.emit roots (.ofGraph g) g.edges ∧
          (g.rename ρ).roots = g.roots.map ρ ∧ (g.rename ρ).emit = g.emit ∧
          ∀ parameters, Outline.showsIds parameters = false →
            Outline.ofGraph parameters (g.rename ρ) = Outline.ofGraph parameters g) ∧
    ∀ (s : Synchronizer) (source : String) (k₁ k₂ : Counter),
      ∃ ρ : InstanceId → InstanceId, ρ.Injective ∧
        (s.toGraph source k₂).1 = (s.toGraph source k₁).1.map (·.rename ρ) ∧
        (s.toGraph source k₂).1.map (·.graph.emit) = (s.toGraph source k₁).1.map (·.graph.emit) ∧
        (∀ t : Synchronizer, (s.toGraph source k₂).1.map (t.toCode ·.graph) =
          (s.toGraph source k₁).1.map (t.toCode ·.graph)) ∧
        (s.roundTrip source k₂).1 = (s.roundTrip source k₁).1 ∧
        ∀ parameters, Outline.showsIds parameters = false →
          (s.toGraph source k₂).1.map (Outline.ofGraph parameters ·.graph) =
              (s.toGraph source k₁).1.map (Outline.ofGraph parameters ·.graph) ∧
            ∀ (c : Schema.Catalog) (root : Tree.Node),
              (Conversion.convert c root k₂).1.root.map (Outline.ofConverted parameters) =
                (Conversion.convert c root k₁).1.root.map (Outline.ofConverted parameters) := by
  constructor
  · intro g roots ρ h
    -- only the ids of the graph and of the roots matter, so the renaming may be taken to be injective
    obtain ⟨σ, hσ, heq⟩ := exists_injective_eq_on h
    have hgraph : g.rename σ = g.rename ρ := Graph.rename_congr fun id hid => heq id (.inr hid)
    have hroots : roots.map σ = roots.map ρ := List.map_congr_left fun id hid => heq id (.inl hid)
    have hown : g.roots.map σ = g.roots.map ρ :=
      List.map_congr_left fun id hid => heq id (.inr (g.roots_subset_ids id hid))
    have hedges : (g.rename σ).edges = g.edges.map (·.rename σ) := rfl
    rw [← hgraph, ← hroots, ← hown]
    refine ⟨?_, Graph.roots_rename hσ g, Graph.emit_rename hσ g,
      fun parameters hids => Outline.ofGraph_rename hσ hids g⟩
    rw [Store.ofGraph_rename, hedges, Emission.emit_rename hσ]
  · intro s source k₁ k₂
    have hρ := InstanceId.shift_injective (k₂.next - k₁.next)
    have hgraphs := (s.toGraph_shift source k₁ (k₂.next - k₁.next)).1
    have htrips := s.roundTrip_shift source k₁ (k₂.next - k₁.next)
    have hroots (c : Schema.Catalog) (root : Tree.Node) :=
      Conversion.convert_shift c root k₁ (k₂.next - k₁.next)
    simp only [Counter.shift_sub] at hgraphs htrips hroots
    have hsame {β : Type} (view : Graph → β)
        (hview : ∀ g, view (g.rename (.shift (k₂.next - k₁.next))) = view g) :
        (s.toGraph source k₂).1.map (view ·.graph) = (s.toGraph source k₁).1.map (view ·.graph) := by
      rw [hgraphs]
      cases (s.toGraph source k₁).1 with
      | error e => rfl
      | ok synced => exact congrArg Except.ok (hview synced.graph)
    refine ⟨.shift (k₂.next - k₁.next), hρ, hgraphs, hsame _ (Graph.emit_rename hρ),
      fun t => hsame _ (Synchronizer.toCode_rename hρ t), htrips, fun parameters hids =>
      ⟨hsame _ (Outline.ofGraph_rename hρ hids), fun c root => ?_⟩⟩
    rw [hroots, Option.map_map]
    refine Option.map_congr fun node _ => ?_
    exact Outline.ofConverted_rename hρ hids node

/-- A knot, which has a mark and ties other knots. -/
def knot (number : UInt64) : Instance where
  id := ⟨number⟩
  template := { name := "Knot", fields := [] }
  fields := [.single { name := "Mark", declaredType := "SyntaxToken" } (some "k"),
    .ofSpec { name := "Ties", declaredType := "SyntaxList<KnotSyntax>" }]

/-- Three knots and a placeholder. The first knot ties the other two, which tie each other, and the
last one ties the placeholder too. -/
def tangle : Graph where
  nodes := [⟨⟨1⟩, some (knot 1)⟩, ⟨⟨2⟩, some (knot 2)⟩, ⟨⟨3⟩, some (knot 3)⟩, ⟨⟨4⟩, none⟩]
  edges := [⟨⟨1⟩, "Ties", ⟨2⟩⟩, ⟨⟨2⟩, "Ties", ⟨3⟩⟩, ⟨⟨3⟩, "Ties", ⟨2⟩⟩, ⟨⟨1⟩, "Ties", ⟨3⟩⟩,
    ⟨⟨3⟩, "Ties", ⟨4⟩⟩]

/-- A renaming that is injective on small ids only. -/
def doubled (id : InstanceId) : InstanceId :=
  ⟨2 * id.number⟩

theorem texts_tangle :
    Set.InjOn doubled {id | id ∈ [⟨3⟩] ∨ id ∈ tangle.ids} ∧
      (tangle.rename doubled).ids ≠ tangle.ids ∧
      Emission.emit [⟨6⟩] (.ofGraph (tangle.rename doubled)) (tangle.rename doubled).edges =
        Emission.emit [⟨3⟩] (.ofGraph tangle) tangle.edges ∧
      (tangle.rename doubled).roots = [⟨2⟩] ∧ (tangle.rename doubled).emit = tangle.emit ∧
      Outline.ofGraph [] (tangle.rename doubled) = Outline.ofGraph [] tangle := by
  have hinj : Set.InjOn doubled {id | id ∈ [⟨3⟩] ∨ id ∈ tangle.ids} := by
    have h : ∀ a ∈ [⟨3⟩] ++ tangle.ids, ∀ b ∈ [⟨3⟩] ++ tangle.ids, doubled a = doubled b → a = b := by
      decide
    exact fun a ha b hb => h a (List.mem_append.2 ha) b (List.mem_append.2 hb)
  obtain ⟨hroots, hown, hemit, houtline⟩ := texts_of_renaming.1 tangle [⟨3⟩] doubled hinj
  exact ⟨hinj, by decide, hroots, hown, hemit, houtline [] rfl⟩

end SyntaxGraph
