import Mathlib.Data.List.Infix
import Mathlib.Data.List.Perm.Subperm
import SyntaxGraph.Proofs.Graph.Json
import SyntaxGraph.Proofs.Process.Graphs

/-!
# Graphs of a process that are loaded again

A process may write any of its graphs and load the text. The ids that are accepted then end at
`2 ^ 63 - 1`, but the counter does not: it hands out `2 ^ 63` right after that last id came from
outside, and a graph with the new node is written to a text that is refused.

The counter goes up from an id that came from outside by what is handed out after it, and no further
unless it stood higher before. So all new ids are accepted exactly when each id from outside leaves
room for those that are handed out after it, and then no graph of the process is refused for its ids.
-/

namespace SyntaxGraph

namespace Ledger

variable {l l' : Ledger} {total : Nat}

theorem Move.inRange_outside (h : Move l l') (hl : ∀ id ∈ l.outside, id.inRange = true) :
    ∀ id ∈ l'.outside, id.inRange = true := by
  cases h with
  | issue number => exact hl
  | receive hrange hids =>
    intro id hid
    rcases List.mem_append.1 hid with hid | hid
    · exact hl id hid
    · exact hrange id ((hids id).1 hid)

/-- The counter stays below `2 ^ 63` until `total` ids are handed out, if none comes from outside. -/
def Fits (total : Nat) (l : Ledger) : Prop :=
  l.counter.next.toNat + (total - l.issued.length) ≤ 2 ^ 63

/-- **One action.** -/
theorem Move.fits (h : Move l l') (hl : l.Fits total) (htotal : l'.issued.length ≤ total)
    (houtside : ∀ id ∈ l'.outside, id.number.toNat + (total - l'.issued.length) < 2 ^ 63) :
    l'.Fits total := by
  unfold Fits at hl ⊢
  cases h with
  | issue number =>
    have hskip : (l.counter.skip number).next.toNat ≤ l.counter.next.toNat + number := by
      rw [Counter.next_skip, UInt64.toNat_add, UInt64.toNat_ofNat']
      omega
    simp only [Ledger.issue, List.length_append, Counter.length_take] at htotal ⊢
    omega
  | @receive reserved ids hrange hids =>
    simp only [Ledger.receive] at houtside ⊢
    have hreserved : ∀ id ∈ reserved,
        id.number.toNat < 2 ^ 63 - (total - l.issued.length) := by
      intro id hid
      have hid := houtside id (List.mem_append_right _ ((hids id).2 hid))
      omega
    have hnext := @Counter.toNat_reserveAll_le l.counter reserved _ hrange hreserved
    omega

end Ledger

namespace Process

theorem inRange_outside_runFrom {p : Process} (actions : List Action)
    (hp : ∀ id ∈ p.ids.outside, id.inRange = true) :
    ∀ id ∈ (p.runFrom actions).ids.outside, id.inRange = true := by
  induction actions generalizing p with
  | nil => exact hp
  | cons a actions ih => exact ih ((p.move_perform a).inRange_outside hp)

theorem length_issued_le {p : Process} (actions : List Action) :
    p.ids.issued.length ≤ (p.runFrom actions).ids.issued.length := by
  induction actions generalizing p with
  | nil => exact Nat.le_refl _
  | cons a actions ih =>
    obtain ⟨later, hlater⟩ := (p.move_perform a).issued_eq
    have hfirst : p.ids.issued.length ≤ (p.perform a).ids.issued.length := by
      rw [hlater, List.length_append]
      omega
    exact Nat.le_trans hfirst ih

/-- Each id that came from outside leaves room below `2 ^ 63` for what is handed out after it. -/
def LeavesRoom (p : Process) (actions : List Action) : Prop :=
  ∀ before after, actions = before ++ after → ∀ id ∈ (p.runFrom before).ids.outside,
    id.number.toNat + ((p.runFrom actions).ids.issued.length -
      (p.runFrom before).ids.issued.length) < 2 ^ 63

/-- **A whole run.** -/
theorem fits_runFrom {p : Process} {actions : List Action} (hroom : p.LeavesRoom actions)
    (hp : p.ids.Fits (p.runFrom actions).ids.issued.length) :
    (p.runFrom actions).ids.Fits (p.runFrom actions).ids.issued.length := by
  induction actions generalizing p with
  | nil => exact hp
  | cons a actions ih =>
    have hrest : (p.perform a).LeavesRoom actions := by
      intro before after hactions
      exact hroom (a :: before) after (by rw [hactions, List.cons_append])
    have hnext := (p.move_perform a).fits hp (length_issued_le actions)
      (hroom [a] actions rfl)
    exact ih hrest hnext

/-- The ids of a process that leaves room are accepted. -/
theorem inRange_of_leavesRoom {actions : List Action} (hroom : LeavesRoom {} actions)
    (hfew : (run actions).ids.issued.length < 2 ^ 63) {id : InstanceId}
    (hid : id ∈ (run actions).ids.known) : id.inRange = true := by
  have hfits : (run actions).ids.Fits (run actions).ids.issued.length := by
    refine fits_runFrom hroom ?_
    show 1 + ((run actions).ids.issued.length - 0) ≤ 2 ^ 63
    omega
  have hsound : (run actions).ids.Sound := sound_runFrom actions Ledger.sound_empty hfew
  have hlt := hsound.known_lt id hid
  unfold Ledger.Fits at hfits
  have hnumber : id.number.toNat ≤ InstanceId.maxNumber.toNat := by
    show id.number.toNat ≤ 2 ^ 63 - 1
    omega
  simpa [InstanceId.inRange] using UInt64.le_iff_toNat_le.2 hnumber

/-- Ids that are all accepted are no more than there are accepted ones from the counter on. -/
theorem length_issued_le_of_inRange {p : Process} (actions : List Action) (hp : p.ids.Sound)
    (hfew : (p.runFrom actions).ids.Few)
    (hissued : ∀ id ∈ (p.runFrom actions).ids.issued, id.inRange = true) :
    (p.runFrom actions).ids.issued.length - p.ids.issued.length ≤
      2 ^ 63 - p.ids.counter.next.toNat := by
  obtain ⟨later, hlater, habove⟩ := issued_runFrom actions hp hfew
  have hsound := sound_runFrom actions hp hfew
  rw [hlater] at hissued ⊢
  -- what is handed out are distinct numbers between the counter and the last id that is accepted
  have hnodup : (later.map (·.number.toNat)).Nodup := by
    refine List.Nodup.map (fun j k hjk => ?_) (List.nodup_append.1 (hlater ▸ hsound.nodup)).2.1
    exact congrArg InstanceId.mk (UInt64.toNat_inj.1 hjk)
  have hsubset : later.map (·.number.toNat) ⊆
      List.range' p.ids.counter.next.toNat (2 ^ 63 - p.ids.counter.next.toNat) := by
    intro n hn
    obtain ⟨k, hk, rfl⟩ := List.mem_map.1 hn
    have hge := habove k hk
    have hlt := Counter.toNat_lt_of_inRange (hissued k (List.mem_append_right _ hk))
    rw [List.mem_range'_1]
    omega
  have hlength := (List.subperm_of_subset hnodup hsubset).length_le
  simp only [List.length_map, List.length_range'] at hlength
  rw [List.length_append]
  omega

/-- A process that hands out no id above the accepted ones leaves room. -/
theorem leavesRoom_of_inRange {actions : List Action}
    (hfew : (run actions).ids.issued.length < 2 ^ 63)
    (hissued : ∀ id ∈ (run actions).ids.issued, id.inRange = true) : LeavesRoom {} actions := by
  rintro before after rfl id hid
  have hrun : runFrom {} (before ++ after) = runFrom (runFrom {} before) after :=
    run_append before after
  rw [run, hrun] at hfew hissued
  rw [hrun]
  have hbefore := sound_runFrom before Ledger.sound_empty (few_of_runFrom after hfew)
  have hlater := length_issued_le_of_inRange after hbefore hfew hissued
  have hbelow := hbefore.known_lt id (List.mem_append_right _ hid)
  have hrange := Counter.toNat_lt_of_inRange (inRange_outside_runFrom before (by simp) id hid)
  omega

/-- **What a process builds it can load again, if it leaves room.** Every id that a process hands out
can be reserved exactly when each id from outside leaves room below `2 ^ 63` for those that are handed
out after it. Then a graph of the process loaded from its own text is the graph itself, or the text
is malformed; it is never refused for an id. It is not malformed either if it does not nest too deep
and the numbers of its selected alternatives are words. -/
theorem reload_run (actions : List Action) (hfew : (run actions).ids.issued.length < 2 ^ 63) :
    ((∀ id ∈ (run actions).ids.issued, ∀ counter : Counter, (counter.reserve? id).isSome = true) ↔
      LeavesRoom {} actions) ∧
    (LeavesRoom {} actions → ∀ l ∈ (run actions).graphs, ∀ counter : Counter,
      ((Graph.load l.graph.text counter).1 = .ok l.graph ∨
        (Graph.load l.graph.text counter).1 = .error (.json .malformed)) ∧
      (Words l.graph.indices → l.graph.toJson.nesting ≤ Graph.nestingLimit →
        (Graph.load l.graph.text counter).1 = .ok l.graph)) := by
  simp only [Counter.reserve?_isSome, forall_const]
  refine ⟨⟨leavesRoom_of_inRange hfew, fun hroom id hid => ?_⟩, fun hroom l hl counter => ?_⟩
  · exact inRange_of_leavesRoom hroom hfew (List.mem_append_left _ hid)
  · have hkeeps := keeps_run actions l hl
    rw [Graph.fst_load_text hkeeps.linked
      fun n hn => inRange_of_leavesRoom hroom hfew (hkeeps.known n hn)]
    refine ⟨?_, fun hwords hnesting => if_pos (Graph.loadable_of_nesting hnesting hwords)⟩
    split
    · exact .inl rfl
    · exact .inr rfl

/-- A graph is loaded and gets two new nodes and an edge between them. -/
def reopening : List Action :=
  [.loadGraph "\x7b\"nodes\":[\x7b\"id\":20\x7d],\"edges\":[]\x7d", .edit 0 (.addNode pair),
    .edit 0 .addPlaceholder, .edit 0 (.connect ⟨21⟩ "Left" ⟨22⟩)]

/-- The graph that comes of it. -/
def reopened : Graph where
  nodes := [⟨⟨20⟩, none⟩, ⟨⟨21⟩, some ⟨⟨21⟩, pair, pair.fields⟩⟩, ⟨⟨22⟩, none⟩]
  edges := [⟨⟨21⟩, "Left", ⟨22⟩⟩]

theorem reload_reopening :
    (run reopening).ids.issued = [⟨21⟩, ⟨22⟩] ∧ LeavesRoom {} reopening ∧
      ((⟨1⟩ : Counter).reserve? ⟨22⟩).isSome = true ∧
      (run reopening).graphs.map (·.graph) = [reopened] ∧
      (Graph.load reopened.text ⟨1⟩).1 = .ok reopened := by
  have hissued : (run reopening).ids.issued = [⟨21⟩, ⟨22⟩] := by
    decide +kernel
  have hroom : LeavesRoom {} reopening := by
    have hall : ∀ before ∈ reopening.inits, ∀ id ∈ (runFrom {} before).ids.outside,
        id.number.toNat + ((runFrom {} reopening).ids.issued.length -
          (runFrom {} before).ids.issued.length) < 2 ^ 63 := by
      decide +kernel
    intro before after hactions
    exact hall before ((List.mem_inits before reopening).2 ⟨after, hactions.symm⟩)
  have hgraphs : (run reopening).graphs.map (·.graph) = [reopened] := by
    decide +kernel
  obtain ⟨l, hl, hgraph⟩ : ∃ l ∈ (run reopening).graphs, l.graph = reopened := by
    rw [← List.mem_map, hgraphs]
    exact List.mem_cons_self
  obtain ⟨hreserve, hreload⟩ := reload_run reopening (by rw [hissued]; decide)
  refine ⟨hissued, hroom, hreserve.2 hroom ⟨22⟩ (by rw [hissued]; decide) ⟨1⟩, hgraphs, ?_⟩
  rw [← hgraph]
  exact (hreload hroom l hl ⟨1⟩).2 (by rw [hgraph]; decide) (by rw [hgraph]; decide)

/-- The last id that is accepted comes from outside, and the next one goes to a new node. -/
def overstepping : List Action :=
  [.loadGraph "\x7b\"nodes\":[\x7b\"id\":9223372036854775807\x7d]\x7d", .edit 0 .addPlaceholder]

/-- **Without room a graph is refused**: one id is handed out, it cannot be reserved, and the text of
the graph with the new node is not loaded. -/
theorem reload_overstepping :
    (run overstepping).ids.issued = [⟨9223372036854775808⟩] ∧
      (run overstepping).ids.counter.reserve? ⟨9223372036854775808⟩ = none ∧
      (run overstepping).graphs.map
          (fun l => (Graph.load l.graph.text (run overstepping).ids.counter).1) =
        [.error (.idOutOfRange ⟨9223372036854775808⟩)] := by
  decide +kernel

end Process

end SyntaxGraph
