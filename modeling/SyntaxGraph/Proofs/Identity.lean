import Mathlib.Algebra.Group.Nat.Defs
import Mathlib.Data.List.Nodup
import SyntaxGraph.Identity

/-!
# Runs of new ids and of reserved ones

What a counter hands out when it is asked many times: consecutive words, which are distinct as long
as there are no more of them than words. What a counter is raised to by ids from outside: above all
of them, and never further than `2 ^ 63` or a bound of the ids unless it stood there before.
-/

namespace SyntaxGraph.Counter

/-- The next `n` ids. -/
def take (counter : Counter) : Nat → List InstanceId
  | 0 => []
  | n + 1 => counter.fresh.1 :: counter.fresh.2.take n

/-- The counter after `n` ids. -/
def skip (counter : Counter) : Nat → Counter
  | 0 => counter
  | n + 1 => counter.fresh.2.skip n

@[simp] theorem take_zero (counter : Counter) : counter.take 0 = [] := rfl

@[simp] theorem skip_zero (counter : Counter) : counter.skip 0 = counter := rfl

@[simp] theorem length_take (counter : Counter) (n : Nat) : (counter.take n).length = n := by
  induction n generalizing counter with
  | zero => rfl
  | succ n ih => rw [take, List.length_cons, ih]

theorem take_add (counter : Counter) (m n : Nat) :
    counter.take (m + n) = counter.take m ++ (counter.skip m).take n := by
  induction m generalizing counter with
  | zero => simp
  | succ m ih => rw [Nat.add_right_comm, take, take, skip, ih, List.cons_append]

theorem skip_add (counter : Counter) (m n : Nat) :
    counter.skip (m + n) = (counter.skip m).skip n := by
  induction m generalizing counter with
  | zero => simp
  | succ m ih => rw [Nat.add_right_comm, skip, skip, ih]

theorem next_skip (counter : Counter) (n : Nat) :
    (counter.skip n).next = counter.next + UInt64.ofNat n := by
  induction n generalizing counter with
  | zero => simp
  | succ n ih =>
    rw [skip, ih, fresh_snd, UInt64.ofNat_add, UInt64.add_assoc, UInt64.add_comm 1]
    rfl

theorem take_eq_map (counter : Counter) (n : Nat) :
    counter.take n = (List.range n).map fun i => ⟨counter.next + UInt64.ofNat i⟩ := by
  induction n with
  | zero => rfl
  | succ n ih =>
    rw [take_add, ih, List.range_succ, List.map_append]
    simp [take, next_skip]

/-- The ids of a counter that does not wrap are consecutive numbers. -/
theorem numbers_take {counter : Counter} {n : Nat} (h : counter.next.toNat + n ≤ UInt64.size) :
    (counter.take n).map (·.number.toNat) = List.range' counter.next.toNat n := by
  rw [take_eq_map, List.map_map, List.range'_eq_map_range]
  refine List.map_congr_left fun i hi => ?_
  have hi := List.mem_range.1 hi
  simp only [Function.comp_apply, UInt64.toNat_add, UInt64.toNat_ofNat']
  simp only [UInt64.size] at h
  omega

/-- Up to `2 ^ 64` ids in a row are distinct. -/
theorem nodup_take {counter : Counter} {n : Nat} (h : n ≤ UInt64.size) :
    (counter.take n).Nodup := by
  rw [take_eq_map]
  refine List.Nodup.map_on ?_ List.nodup_range
  intro i hi j hj hij
  have hi := List.mem_range.1 hi
  have hj := List.mem_range.1 hj
  have hij := UInt64.toNat_inj.2 (InstanceId.mk.inj hij)
  simp only [UInt64.toNat_add, UInt64.toNat_ofNat'] at hij
  simp only [UInt64.size] at h
  omega

/-! ### Reserved ids -/

/-- The counter raised above some ids, those out of range left out. -/
def reserveAll (counter : Counter) (ids : List InstanceId) : Counter :=
  ids.foldl (fun c id => (c.reserve? id).getD c) counter

theorem toNat_lt_of_inRange {id : InstanceId} (h : id.inRange = true) :
    id.number.toNat < 2 ^ 63 := by
  have hle : id.number ≤ InstanceId.maxNumber := by simpa [InstanceId.inRange] using h
  have hmax : InstanceId.maxNumber.toNat = 2 ^ 63 - 1 := rfl
  have := UInt64.le_iff_toNat_le.1 hle
  omega

theorem toNat_reserve? {counter : Counter} {id : InstanceId} (h : id.inRange = true) :
    ((counter.reserve? id).getD counter).next.toNat =
      max counter.next.toNat (id.number.toNat + 1) := by
  have hid := toNat_lt_of_inRange h
  have hsucc : (id.number + 1).toNat = id.number.toNat + 1 := by
    rw [UInt64.toNat_add]
    simp only [UInt64.reduceToNat]
    omega
  have hmax : max counter.next (id.number + 1) =
      if counter.next ≤ id.number + 1 then id.number + 1 else counter.next := rfl
  simp only [reserve?, h, if_true, Option.getD_some]
  rw [hmax]
  split
  · rename_i hle
    have hle := UInt64.le_iff_toNat_le.1 hle
    omega
  · rename_i hle
    have hle := mt UInt64.le_iff_toNat_le.2 hle
    omega

/-- Reserving raises a counter above every reserved id, and else not above `2 ^ 63`. -/
theorem toNat_reserveAll {counter : Counter} {ids : List InstanceId}
    (h : ∀ id ∈ ids, id.inRange = true) :
    counter.next.toNat ≤ (counter.reserveAll ids).next.toNat ∧
      (counter.reserveAll ids).next.toNat ≤ max counter.next.toNat (2 ^ 63) ∧
      ∀ id ∈ ids, id.number.toNat < (counter.reserveAll ids).next.toNat := by
  induction ids generalizing counter with
  | nil => exact ⟨Nat.le_refl _, Nat.le_max_left _ _, by simp⟩
  | cons id ids ih =>
    have hid := h id List.mem_cons_self
    have hlt := toNat_lt_of_inRange hid
    have hstep := @toNat_reserve? counter id hid
    obtain ⟨hge, hle, hall⟩ :=
      @ih ((counter.reserve? id).getD counter) fun k hk => h k (List.mem_cons_of_mem id hk)
    have hcons : counter.reserveAll (id :: ids) =
        ((counter.reserve? id).getD counter).reserveAll ids := rfl
    rw [hcons]
    refine ⟨by omega, by omega, fun k hk => ?_⟩
    rcases List.mem_cons.1 hk with rfl | hk
    · omega
    · exact hall k hk

/-- Reserving ids below a bound does not raise a counter above the bound. -/
theorem toNat_reserveAll_le {counter : Counter} {ids : List InstanceId} {bound : Nat}
    (hrange : ∀ id ∈ ids, id.inRange = true) (hbound : ∀ id ∈ ids, id.number.toNat < bound) :
    (counter.reserveAll ids).next.toNat ≤ max counter.next.toNat bound := by
  induction ids generalizing counter with
  | nil => exact Nat.le_max_left _ _
  | cons id ids ih =>
    rw [List.forall_mem_cons] at hrange hbound
    have hstep := @toNat_reserve? counter id hrange.1
    have hrest := @ih ((counter.reserve? id).getD counter) hrange.2 hbound.2
    have hcons : counter.reserveAll (id :: ids) =
        ((counter.reserve? id).getD counter).reserveAll ids := rfl
    rw [hcons]
    omega

/-- Reserving raises a counter to the largest of the numbers that follow the ids. -/
theorem toNat_reserveAll_eq {counter : Counter} {ids : List InstanceId}
    (h : ∀ id ∈ ids, id.inRange = true) :
    (counter.reserveAll ids).next.toNat =
      (ids.map (·.number.toNat + 1)).foldl max counter.next.toNat := by
  induction ids generalizing counter with
  | nil => rfl
  | cons id ids ih =>
    rw [List.forall_mem_cons] at h
    have hrest := @ih ((counter.reserve? id).getD counter) h.2
    rw [toNat_reserve? h.1] at hrest
    exact hrest

/-- An id that lies below a counter is reserved already. -/
theorem reserve?_of_lt {counter : Counter} {id : InstanceId} (h : id.inRange = true)
    (hlt : id.number.toNat < counter.next.toNat) : counter.reserve? id = some counter := by
  have hnext := @toNat_reserve? counter id h
  obtain ⟨counter', hsome⟩ := Option.isSome_iff_exists.1 ((counter.reserve?_isSome id).trans h)
  rw [hsome, Option.getD_some] at hnext
  have hsame : counter'.next = counter.next := UInt64.toNat_inj.1 (by omega)
  obtain ⟨next⟩ := counter
  obtain ⟨next'⟩ := counter'
  obtain rfl : next' = next := hsame
  exact hsome

end SyntaxGraph.Counter
