import SyntaxGraph.Proofs.Process.Basic

/-!
# The ids of a process

Reserved ids lie below `2 ^ 63`, so the counter of a process that hands out fewer than `2 ^ 63` ids
never comes to its end. As long as it does not, it stands above every id that was handed out or came
from outside, and so the next id is none of them.
-/

namespace SyntaxGraph

namespace Ledger

/-- Fewer than `2 ^ 63` ids were handed out. -/
def Few (l : Ledger) : Prop :=
  l.issued.length < 2 ^ 63

/-- The counter stands above every id that is known, no id was handed out twice, and the counter has
not gone further than by what was handed out. -/
structure Sound (l : Ledger) : Prop where
  next_le : l.counter.next.toNat ≤ 2 ^ 63 + l.issued.length
  known_lt : ∀ id ∈ l.known, id.number.toNat < l.counter.next.toNat
  nodup : l.issued.Nodup

theorem sound_empty : Sound {} :=
  ⟨by decide, by simp [known], List.nodup_nil⟩

variable {l l' : Ledger}

theorem Move.issued_eq (h : Move l l') : ∃ later, l'.issued = l.issued ++ later := by
  cases h with
  | issue number => exact ⟨_, rfl⟩
  | receive hrange hids => exact ⟨[], (List.append_nil _).symm⟩

theorem Move.mem_known (h : Move l l') {id : InstanceId} (hid : id ∈ l.known) : id ∈ l'.known := by
  rw [known, List.mem_append] at hid ⊢
  cases h with
  | issue number => exact hid.imp_left fun hid => List.mem_append_left _ hid
  | receive hrange hids => exact hid.imp_right fun hid => List.mem_append_left _ hid

theorem Move.few (h : Move l l') (hfew : l'.Few) : l.Few := by
  obtain ⟨later, hlater⟩ := h.issued_eq
  unfold Few at hfew ⊢
  rw [hlater, List.length_append] at hfew
  omega

/-- The ids that are taken next lie between the counter before and the counter after. -/
theorem Sound.mem_take (hl : l.Sound) {number : Nat}
    (hfew : (l.issue (l.counter.take number) (l.counter.skip number)).Few) :
    (l.counter.skip number).next.toNat = l.counter.next.toNat + number ∧
      ∀ id ∈ l.counter.take number, l.counter.next.toNat ≤ id.number.toNat ∧
        id.number.toNat < l.counter.next.toNat + number := by
  have hnext := hl.next_le
  simp only [Few, Ledger.issue, List.length_append, Counter.length_take] at hfew
  have hwrap : l.counter.next.toNat + number < UInt64.size := by
    simp only [UInt64.size]
    omega
  refine ⟨?_, fun id hid => ?_⟩
  · simp only [UInt64.size] at hwrap
    rw [Counter.next_skip, UInt64.toNat_add, UInt64.toNat_ofNat']
    omega
  · have hrange := Counter.numbers_take (Nat.le_of_lt hwrap)
    have hmem : id.number.toNat ∈ List.range' l.counter.next.toNat number := by
      rw [← hrange]
      exact List.mem_map_of_mem hid
    rw [List.mem_range'_1] at hmem
    exact hmem

/-- **One action.** -/
theorem Move.sound (h : Move l l') (hl : l.Sound) (hfew : l'.Few) : l'.Sound := by
  cases h with
  | issue number =>
    obtain ⟨hskip, htake⟩ := hl.mem_take hfew
    have hnext := hl.next_le
    refine ⟨?_, ?_, ?_⟩
    · simp only [Ledger.issue, List.length_append, Counter.length_take, hskip]
      omega
    · intro id hid
      simp only [known, Ledger.issue, List.mem_append] at hid
      simp only [Ledger.issue, hskip]
      have hold := hl.known_lt id
      simp only [known, List.mem_append] at hold
      rcases hid with (hid | hid) | hid
      · have := hold (.inl hid)
        omega
      · exact (htake id hid).2
      · have := hold (.inr hid)
        omega
    · refine List.nodup_append.2 ⟨hl.nodup, ?_, fun a ha b hb => ?_⟩
      · refine Counter.nodup_take ?_
        simp only [Few, Ledger.issue, List.length_append, Counter.length_take] at hfew
        simp only [UInt64.size]
        omega
      · -- an id that was handed out before lies below the counter, a new one does not
        have hold := hl.known_lt a (List.mem_append_left _ ha)
        have hnew := (htake b hb).1
        rintro rfl
        omega
  | @receive reserved ids hrange hids =>
    obtain ⟨hge, hle, habove⟩ := @Counter.toNat_reserveAll l.counter reserved hrange
    have hnext := hl.next_le
    refine ⟨?_, ?_, hl.nodup⟩
    · simp only [Ledger.receive]
      omega
    · intro id hid
      simp only [known, Ledger.receive, List.mem_append] at hid
      simp only [Ledger.receive]
      have hold := hl.known_lt id
      simp only [known, List.mem_append] at hold
      rcases hid with hid | hid | hid
      · have := hold (.inl hid)
        omega
      · have := hold (.inr hid)
        omega
      · exact habove id ((hids id).1 hid)

/-- The counter does not go back, and what is handed out comes from above it. -/
theorem Move.above (h : Move l l') (hl : l.Sound) (hfew : l'.Few) :
    l.counter.next.toNat ≤ l'.counter.next.toNat ∧
      ∃ later, l'.issued = l.issued ++ later ∧
        ∀ id ∈ later, l.counter.next.toNat ≤ id.number.toNat := by
  cases h with
  | issue number =>
    obtain ⟨hskip, htake⟩ := hl.mem_take hfew
    refine ⟨?_, _, rfl, fun id hid => (htake id hid).1⟩
    simp only [Ledger.issue, hskip]
    omega
  | @receive reserved ids hrange hids =>
    obtain ⟨hge, -, -⟩ := @Counter.toNat_reserveAll l.counter reserved hrange
    exact ⟨hge, [], (List.append_nil _).symm, by simp⟩

end Ledger

namespace Process

theorem few_of_runFrom {p : Process} (actions : List Action)
    (hfew : (p.runFrom actions).ids.Few) : p.ids.Few := by
  induction actions generalizing p with
  | nil => exact hfew
  | cons a actions ih => exact (p.move_perform a).few (ih hfew)

/-- **A whole run.** -/
theorem sound_runFrom {p : Process} (actions : List Action) (hp : p.ids.Sound)
    (hfew : (p.runFrom actions).ids.Few) : (p.runFrom actions).ids.Sound := by
  induction actions generalizing p with
  | nil => exact hp
  | cons a actions ih =>
    have hnext := (p.move_perform a).sound hp (few_of_runFrom actions hfew)
    exact ih hnext hfew

/-- What a run hands out comes after what was handed out before it, and from above the counter. -/
theorem issued_runFrom {p : Process} (actions : List Action) (hp : p.ids.Sound)
    (hfew : (p.runFrom actions).ids.Few) :
    ∃ later, (p.runFrom actions).ids.issued = p.ids.issued ++ later ∧
      ∀ id ∈ later, p.ids.counter.next.toNat ≤ id.number.toNat := by
  induction actions generalizing p with
  | nil => exact ⟨[], (List.append_nil _).symm, by simp⟩
  | cons a actions ih =>
    have hmove := p.move_perform a
    have hfew' := few_of_runFrom actions hfew
    obtain ⟨hnext, first, hfirst, habove⟩ := hmove.above hp hfew'
    obtain ⟨rest, hrest, habove'⟩ := ih (hmove.sound hp hfew') hfew
    refine ⟨first ++ rest, ?_, fun id hid => ?_⟩
    · rw [← List.append_assoc, ← hfirst]
      exact hrest
    · rcases List.mem_append.1 hid with hid | hid
      · exact habove id hid
      · exact Nat.le_trans hnext (habove' id hid)

end Process

end SyntaxGraph
