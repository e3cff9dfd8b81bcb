import Mathlib.Data.List.TakeWhile
import SyntaxGraph.Json.Basic

/-!
# Plain values

What is written as JSON is put together from truth values, natural numbers, texts, arrays and objects
with named members: it is `Plain`. A plain value whose numbers are words can be held in memory as soon
as it nests no deeper than there is room for.

A plain object is read as a record when its members are named after the record's, in their order. Then
the record has exactly the members that were written.
-/

namespace SyntaxGraph.Json

/-! ### Natural numbers -/

namespace Number

theorem all_isDigit_toDigits (n : Nat) : ∀ c ∈ Nat.toDigits 10 n, c.isDigit = true :=
  fun _ hc => Nat.isDigit_of_mem_toDigits (by decide) (by decide) hc

/-- Only zero is written with a zero in front. -/
theorem head?_toDigits {n : Nat} (h : n ≠ 0) : (Nat.toDigits 10 n).head? ≠ some '0' := by
  induction n using Nat.strongRecOn with
  | ind n ih =>
    rw [Nat.toDigits_eq_if (by decide)]
    split
    · simpa using h
    · have hn : n / 10 ≠ 0 := by omega
      have ih := ih (n / 10) (by omega) hn
      cases hdigits : Nat.toDigits 10 (n / 10) with
      | nil => exact absurd hdigits Nat.toDigits_ne_nil
      | cons d ds =>
        rw [hdigits] at ih
        exact ih

theorem parts?_toDigits (n : Nat) :
    parts? (Nat.toDigits 10 n) = some ⟨false, Nat.toDigits 10 n, none, none⟩ := by
  have hdigits := all_isDigit_toDigits n
  have htake : (Nat.toDigits 10 n).takeWhile Char.isDigit = Nat.toDigits 10 n :=
    List.takeWhile_eq_self_iff.2 hdigits
  have hdrop : (Nat.toDigits 10 n).dropWhile Char.isDigit = [] :=
    List.dropWhile_eq_nil_iff.2 hdigits
  have hzero :
      ((Nat.toDigits 10 n).head? == some '0' && (Nat.toDigits 10 n).length != 1) = false := by
    by_cases hn : n = 0
    · subst hn
      rfl
    · simp [head?_toDigits hn]
  have hsign : ∀ r, Nat.toDigits 10 n ≠ '-' :: r := by
    intro r hr
    have hminus := hdigits '-' (by simp [hr])
    revert hminus
    decide
  unfold parts?
  split
  rename_i negative cs hmatch
  split at hmatch
  · rename_i r hr
    exact absurd hr (hsign r)
  · obtain ⟨rfl, rfl⟩ := Prod.mk.inj hmatch
    simp only [htake, hdrop, hzero]
    simp [splitFraction?, splitExponent?, Nat.toDigits_ne_nil]

theorem digitsValue_toDigits (n : Nat) : digitsValue (Nat.toDigits 10 n) = n := by
  have hvalue := Nat.ofDigitChars_ten_toDigits (n := n)
  rw [Nat.ofDigitChars_eq_foldl] at hvalue
  simpa only [digitsValue, Nat.mul_comm] using hvalue

theorem natural?_toDigits (n : Nat) : natural? (String.ofList (Nat.toDigits 10 n)) = some n := by
  simp only [natural?, String.toList_ofList, parts?_toDigits, digitsValue_toDigits]

/-- A word fits a double. -/
theorem fitsDouble_toDigits {n : Nat} (h : n < UInt64.size) :
    fitsDouble (String.ofList (Nat.toDigits 10 n)) = true := by
  have hbound : UInt64.size ≤ doubleBound := by decide +kernel
  have hn : n < doubleBound := Nat.lt_of_lt_of_le h hbound
  simp only [fitsDouble, String.toList_ofList, parts?_toDigits, Parts.fitsDouble, Option.getD_none,
    List.append_nil, digitsValue_toDigits, List.length_nil]
  show belowBound n _ (.ofNat 0) = true
  simp [belowBound, hn]

end Number

theorem toNatBelow?_ofNat (bound n : Nat) :
    (ofNat n).toNatBelow? bound = if n < bound then some n else none := by
  simp only [toNatBelow?, ofNat, Number.natural?_toDigits, Option.filter_some]
  simp

/-! ### Plain values -/

/-- The value is put together from truth values, natural numbers that fit, texts, arrays and objects
with named members. -/
inductive Plain (fits : Nat → Prop) : Json → Prop where
  | bool (b : Bool) : Plain fits (.bool b)
  | nat {n : Nat} (h : fits n) : Plain fits (.ofNat n)
  | text (s : String) : Plain fits (.ofString s)
  | array {xs : List Json} (h : ∀ x ∈ xs, Plain fits x) : Plain fits (.array xs)
  | object {ms : List (String × Json)} (h : ∀ m ∈ ms, Plain fits m.2) : Plain fits (.ofMembers ms)

/-! ### Nesting -/

mutual

/-- How many arrays and objects stand inside one another. -/
def nesting : Json → Nat
  | .array xs => nestingOfElements xs + 1
  | .object ms => nestingOfMembers ms + 1
  | _ => 0

/-- The deepest nesting among the elements. -/
def nestingOfElements : List Json → Nat
  | [] => 0
  | x :: xs => max x.nesting (nestingOfElements xs)

/-- The deepest nesting among the members. -/
def nestingOfMembers : List (Option String × Json) → Nat
  | [] => 0
  | (_, x) :: ms => max x.nesting (nestingOfMembers ms)

end

theorem nestingOfElements_le {xs : List Json} {n : Nat} :
    nestingOfElements xs ≤ n ↔ ∀ x ∈ xs, x.nesting ≤ n := by
  induction xs with
  | nil => simp [nestingOfElements]
  | cons x xs ih => rw [nestingOfElements, Nat.max_le, ih, List.forall_mem_cons]

theorem nestingOfMembers_le {ms : List (Option String × Json)} {n : Nat} :
    nestingOfMembers ms ≤ n ↔ ∀ m ∈ ms, m.2.nesting ≤ n := by
  induction ms with
  | nil => simp [nestingOfMembers]
  | cons m ms ih => rw [nestingOfMembers, Nat.max_le, ih, List.forall_mem_cons]

theorem nesting_array_le {xs : List Json} {n : Nat} :
    (Json.array xs).nesting ≤ n ↔ n ≠ 0 ∧ ∀ x ∈ xs, x.nesting ≤ n - 1 := by
  rw [nesting, ← nestingOfElements_le]
  omega

theorem nesting_ofMembers_le {ms : List (String × Json)} {n : Nat} :
    (ofMembers ms).nesting ≤ n ↔ n ≠ 0 ∧ ∀ m ∈ ms, m.2.nesting ≤ n - 1 := by
  have hmembers : (∀ m ∈ ms, m.2.nesting ≤ n - 1) ↔
      nestingOfMembers (ms.map fun m => (some m.1, m.2)) ≤ n - 1 := by
    rw [nestingOfMembers_le, List.forall_mem_map]
  rw [hmembers, ofMembers, nesting]
  omega

/-! ### Holding -/

theorem allHeld_iff {room : Nat} {xs : List Json} :
    allHeld room xs = true ↔ ∀ x ∈ xs, x.isHeld room = true := by
  induction xs with
  | nil => simp [allHeld]
  | cons x xs ih => simp [allHeld, ih]

theorem membersHeld_iff {room : Nat} {ms : List (String × Json)} :
    membersHeld room (ms.map fun m => (some m.1, m.2)) = true ↔
      ∀ m ∈ ms, m.2.isHeld room = true := by
  induction ms with
  | nil => simp [membersHeld]
  | cons m ms ih => simp [membersHeld, ih]

/-- **A plain value whose numbers are words can be held where there is room for its nesting.** -/
theorem Plain.isHeld {j : Json} (h : j.Plain (· < UInt64.size)) {room : Nat}
    (hroom : j.nesting ≤ room) : j.isHeld room = true := by
  induction h generalizing room with
  | bool b => rfl
  | nat hn => exact Number.fitsDouble_toDigits hn
  | text s => rfl
  | array _ ih =>
    obtain ⟨hne, hroom⟩ := nesting_array_le.1 hroom
    simp only [Json.isHeld, Bool.and_eq_true, bne_iff_ne, allHeld_iff]
    exact ⟨hne, fun x hx => ih x hx (hroom x hx)⟩
  | object _ ih =>
    obtain ⟨hne, hroom⟩ := nesting_ofMembers_le.1 hroom
    simp only [ofMembers, Json.isHeld, Bool.and_eq_true, bne_iff_ne, membersHeld_iff]
    exact ⟨hne, fun m hm => ih m hm (hroom m hm)⟩

/-! ### Members -/

@[simp] theorem toText?_ofString (s : String) : (ofString s).toText? = some s := rfl

@[simp] theorem toBool?_bool (b : Bool) : (Json.bool b).toBool? = some b := rfl

@[simp] theorem required?_some (decode : Json → Option α) (j : Json) :
    required? decode (some j) = decode j := rfl

@[simp] theorem orElse?_some (default : α) (decode : Json → Option α) (j : Json) :
    orElse? default decode (some j) = decode j := rfl

@[simp] theorem orElse?_none (default : α) (decode : Json → Option α) :
    orElse? default decode none = some default := rfl

/-! ### Records -/

theorem recordMembers?_map {names before : List String} {ms : List (String × Json)}
    (hnames : ∀ m ∈ ms, m.1 ∈ names) (hdistinct : (ms.map (·.1)).Nodup)
    (hbefore : ∀ m ∈ ms, m.1 ∉ before) :
    recordMembers? names before (ms.map fun m => (some m.1, m.2)) = some ms := by
  induction ms generalizing before with
  | nil => rfl
  | cons m ms ih =>
    rw [List.map_cons, List.nodup_cons] at hdistinct
    have hfits : fitsRecord names before m.1 m.2 = true := by
      simp [fitsRecord, hnames m List.mem_cons_self, hbefore m List.mem_cons_self]
    have hbefore : ∀ k ∈ ms, k.1 ∉ m.1 :: before := by
      intro k hk hmem
      rcases List.mem_cons.1 hmem with hkey | hmem
      · exact hdistinct.1 (hkey ▸ List.mem_map_of_mem hk)
      · exact hbefore k (List.mem_cons_of_mem m hk) hmem
    have hrest := ih (fun k hk => hnames k (List.mem_cons_of_mem m hk)) hdistinct.2 hbefore
    simp [recordMembers?, hfits, hrest]

/-- Members that are named in the order of a record are the members of the record. -/
theorem record?_ofMembers {names : List String} {ms : List (String × Json)} (hnames : names.Nodup)
    (hsublist : (ms.map (·.1)).Sublist names) :
    (ofMembers ms).record? names = some (names.map fun name => ms.lookup name) := by
  have hmembers : recordMembers? names [] (ms.map fun m => (some m.1, m.2)) = some ms :=
    recordMembers?_map (fun m hm => hsublist.subset (List.mem_map_of_mem hm))
      (hnames.sublist hsublist) (by simp)
  simp only [ofMembers, record?, hmembers, Option.map_some]

/-! ### Lists -/

/-- Elements that are decoded one by one to what they were, or not at all. -/
theorem toList?_array_map {decode : Json → Option α} {encode : α → Json} {p : α → Prop}
    [DecidablePred p] {xs : List α}
    (h : ∀ x ∈ xs, decode (encode x) = if p x then some x else none) :
    (Json.array (xs.map encode)).toList? decode = if ∀ x ∈ xs, p x then some xs else none := by
  rw [toList?]
  induction xs with
  | nil => rfl
  | cons x xs ih =>
    rw [List.map_cons, List.mapM_cons, h x List.mem_cons_self,
      ih fun y hy => h y (List.mem_cons_of_mem x hy)]
    by_cases hx : p x
    · by_cases hxs : ∀ y ∈ xs, p y
      · rw [if_pos hx, if_pos hxs, if_pos (List.forall_mem_cons.2 ⟨hx, hxs⟩)]
        rfl
      · rw [if_pos hx, if_neg hxs, if_neg fun h => hxs (List.forall_mem_cons.1 h).2]
        rfl
    · rw [if_neg hx, if_neg fun h => hx (List.forall_mem_cons.1 h).1]
      rfl

theorem toList?_array_map_of_all {decode : Json → Option α} {encode : α → Json} {xs : List α}
    (h : ∀ x ∈ xs, decode (encode x) = some x) :
    (Json.array (xs.map encode)).toList? decode = some xs := by
  have hmap : (Json.array (xs.map encode)).toList? decode =
      if ∀ x ∈ xs, True then some xs else none :=
    toList?_array_map (by simpa using h)
  simpa using hmap

end SyntaxGraph.Json
