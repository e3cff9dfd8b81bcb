import Mathlib.Data.List.DropRight
import SyntaxGraph.Proofs.Schema.Templates
import SyntaxGraph.Schema.Reader

/-!
# Attributes of a schema document

A truth value is spelled `true` or `false`, in capitals or not, and a count in decimal digits, with
or without a plus sign. Blanks around them do not matter. What an attribute says is stated here
without a reader. The readers of attributes answer just what is said, and an attribute that says
nothing is invalid.
-/

namespace SyntaxGraph

/-! ### Words with blanks around them -/

namespace Text

/-- The text is `word`, with blanks before and after it. -/
def Padded (word : List Char) (s : String) : Prop :=
  ∃ before after, s.toList = before ++ word ++ after ∧
    (∀ c ∈ before, isBlank c = true) ∧ ∀ c ∈ after, isBlank c = true

theorem trimChars_eq (cs : List Char) :
    trimChars cs = (cs.dropWhile isBlank).rdropWhile isBlank :=
  rfl

theorem padded_trimChars (s : String) : Padded (trimChars s.toList) s := by
  refine ⟨s.toList.takeWhile isBlank, (s.toList.dropWhile isBlank).rtakeWhile isBlank, ?_,
    fun _ => List.mem_takeWhile_imp, fun _ => List.mem_rtakeWhile_imp⟩
  rw [trimChars_eq, List.append_assoc, List.rdropWhile_append_rtakeWhile,
    List.takeWhile_append_dropWhile]

/-- The text is `word` when the blanks at its two ends are taken away. -/
structure Trimmed (word : List Char) (s : String) : Prop where
  padded : Padded word s
  head : ∀ c ∈ word.head?, isBlank c = false
  last : ∀ c ∈ word.getLast?, isBlank c = false

theorem trimmed_iff {word : List Char} {s : String} :
    Trimmed word s ↔ trimChars s.toList = word := by
  constructor
  · rintro ⟨⟨before, after, hs, hbefore, hafter⟩, hhead, hlast⟩
    rw [trimChars_eq, hs, List.append_assoc, List.dropWhile_append_of_pos hbefore]
    cases word with
    | nil => rw [List.nil_append, List.dropWhile_eq_nil_iff.2 hafter, List.rdropWhile_nil]
    | cons c cs =>
      -- the letters at the two ends of the word keep the blanks apart
      have hlast := hlast _ (List.getLast_mem_getLast? (List.cons_ne_nil c cs))
      rw [List.cons_append, List.dropWhile_cons_of_neg (by simp [hhead c rfl]), ← List.cons_append,
        List.rdropWhile, List.reverse_append, List.dropWhile_append_of_pos (by simpa using hafter)]
      exact List.rdropWhile_eq_self_iff.2 fun _ => by simp [hlast]
  · rintro rfl
    refine ⟨padded_trimChars s, fun c hc => ?_, fun c hc => ?_⟩
    · obtain ⟨cs, hcs⟩ := List.head?_eq_some_iff.1 hc
      obtain ⟨after, hafter⟩ := List.rdropWhile_prefix isBlank (s.toList.dropWhile isBlank)
      have hhead := List.head?_dropWhile_not isBlank s.toList
      rw [← hafter, ← trimChars_eq, hcs] at hhead
      exact hhead
    · rw [trimChars_eq] at hc
      obtain ⟨hne, rfl⟩ := List.mem_getLast?_eq_getLast hc
      simpa using List.rdropWhile_last_not isBlank _ hne

/-- A word without blanks is what is left when the blanks around it are taken away. -/
theorem padded_iff {word : List Char} (hword : ∀ c ∈ word, isBlank c = false) {s : String} :
    Padded word s ↔ trimChars s.toList = word := by
  rw [← trimmed_iff]
  constructor
  · exact fun h => ⟨h, fun c hc => hword c (List.mem_of_mem_head? hc),
      fun c hc => hword c (List.mem_of_mem_getLast? hc)⟩
  · exact Trimmed.padded

theorem toLower_of_isBlank {c : Char} (h : isBlank c = true) : c.toLower = c := by
  have hcapital : ¬(c.val ≥ 'A'.val ∧ c.val ≤ 'Z'.val) := by
    rintro ⟨hA, hZ⟩
    have hA : 65 ≤ c.toNat := hA
    have hZ : c.toNat ≤ 90 := hZ
    simp only [isBlank, Bool.or_eq_true, Bool.and_eq_true, decide_eq_true_eq, beq_iff_eq] at h
    omega
  exact dif_neg hcapital

theorem isBlank_of_isDigit {c : Char} (h : c.isDigit = true) : isBlank c = false := by
  simp only [Char.isDigit, Bool.and_eq_true, decide_eq_true_eq] at h
  have h0 : 48 ≤ c.toNat := h.1
  have h9 : c.toNat ≤ 57 := h.2
  simp only [isBlank, Bool.or_eq_false_iff, Bool.and_eq_false_iff, decide_eq_false_iff_not,
    beq_eq_false_iff_ne]
  omega

end Text

namespace Schema

/-! ### Truth values -/

/-- The text spells a truth value. -/
def SpellsTruth (s : String) (b : Bool) : Prop :=
  ∃ word, Text.Padded word s ∧ word.map Char.toLower = (toString b).toList

theorem isBlank_of_toLower {b : Bool} {word : List Char}
    (hword : word.map Char.toLower = (toString b).toList) : ∀ c ∈ word, Text.isBlank c = false := by
  intro c hc
  have hletter : c.toLower ∈ (toString b).toList := hword ▸ List.mem_map_of_mem hc
  have hsolid : (toString b).toList.all (!Text.isBlank ·) = true := by cases b <;> rfl
  rw [List.all_eq_true] at hsolid
  by_contra hblank
  rw [Text.toLower_of_isBlank (by simpa using hblank)] at hletter
  exact hblank (by simpa using hsolid c hletter)

theorem spellsTruth_iff {s : String} {b : Bool} :
    SpellsTruth s b ↔ (Text.trimChars s.toList).map Char.toLower = (toString b).toList := by
  constructor
  · rintro ⟨word, hpadded, hword⟩
    rwa [(Text.padded_iff (isBlank_of_toLower hword)).1 hpadded]
  · intro hword
    exact ⟨_, Text.padded_trimChars s, hword⟩

/-! ### Counts -/

/-- Decimal digits, at least one, of a number of 32 bits. -/
structure IsNumeral (cs : List Char) (k : UInt32) : Prop where
  nonempty : cs ≠ []
  digits : ∀ c ∈ cs, c.isDigit = true
  value : Nat.ofDigitChars 10 cs 0 = k.toNat

/-- The text spells a count. -/
def SpellsCount (s : String) (k : UInt32) : Prop :=
  ∃ sign digits, Text.Padded (sign ++ digits) s ∧ (sign = [] ∨ sign = ['+']) ∧ IsNumeral digits k

/-- The letters without a plus sign before them. -/
def unsigned : List Char → List Char
  | '+' :: cs => cs
  | cs => cs

theorem isNumeral_unsigned_iff {cs : List Char} {k : UInt32} : IsNumeral (unsigned cs) k ↔
    ∃ sign digits, cs = sign ++ digits ∧ (sign = [] ∨ sign = ['+']) ∧ IsNumeral digits k := by
  constructor
  · intro h
    unfold unsigned at h
    split at h
    · exact ⟨['+'], _, rfl, .inr rfl, h⟩
    · exact ⟨[], _, rfl, .inl rfl, h⟩
  · rintro ⟨sign, digits, rfl, rfl | rfl, h⟩
    · have hsame : unsigned digits = digits := by
        unfold unsigned
        split
        · exact absurd (h.digits '+' List.mem_cons_self) (by decide)
        · rfl
      rwa [List.nil_append, hsame]
    · exact h

theorem toNat_eq_iff {n : Nat} {k : UInt32} :
    n < UInt32.size ∧ UInt32.ofNat n = k ↔ n = k.toNat := by
  constructor
  · rintro ⟨hsize, rfl⟩
    exact (UInt32.toNat_ofNat_of_lt' hsize).symm
  · rintro rfl
    exact ⟨k.toNat_lt, UInt32.ofNat_toNat⟩

theorem parseCount?_eq (cs : List Char) : parseCount? cs =
    if (unsigned cs).isEmpty || !(unsigned cs).all Char.isDigit then none
    else if Nat.ofDigitChars 10 (unsigned cs) 0 < UInt32.size then
      some (UInt32.ofNat (Nat.ofDigitChars 10 (unsigned cs) 0))
    else none := by
  simp only [Nat.ofDigitChars_eq_foldl, Nat.mul_comm 10]
  rfl

theorem parseCount?_eq_some_iff {cs : List Char} {k : UInt32} :
    parseCount? cs = some k ↔ IsNumeral (unsigned cs) k := by
  rw [parseCount?_eq]
  constructor
  · intro h
    split at h
    · exact nomatch h
    · rename_i hdigits
      rw [Option.ite_none_right_eq_some, Option.some.injEq, toNat_eq_iff] at h
      simp only [Bool.or_eq_true, not_or] at hdigits
      exact ⟨by simpa using hdigits.1, by simpa using hdigits.2, h⟩
  · rintro ⟨hne, hall, hk⟩
    obtain ⟨hsize, hk⟩ := toNat_eq_iff.2 hk
    rw [if_neg (by simpa using ⟨hne, hall⟩), if_pos hsize, hk]

theorem spellsCount_iff {s : String} {k : UInt32} :
    SpellsCount s k ↔ parseCount? (Text.trimChars s.toList) = some k := by
  rw [parseCount?_eq_some_iff, isNumeral_unsigned_iff]
  constructor
  · rintro ⟨sign, digits, hpadded, hsign, hdigits⟩
    refine ⟨sign, digits, (Text.padded_iff ?_).1 hpadded, hsign, hdigits⟩
    refine List.forall_mem_append.2 ⟨?_, fun c hc => Text.isBlank_of_isDigit (hdigits.digits c hc)⟩
    rcases hsign with rfl | rfl
    · exact List.forall_mem_nil _
    · exact List.forall_mem_singleton.2 rfl
  · rintro ⟨sign, digits, htrim, hsign, hdigits⟩
    exact ⟨sign, digits, htrim ▸ Text.padded_trimChars s, hsign, hdigits⟩

/-! ### What an attribute says -/

/-- The truth value that an attribute says; without the attribute it is false. -/
def SaysTruth (n : Xml.Node) (key : String) (b : Bool) : Prop :=
  match n.attribute? key with
  | none => b = false
  | some s => SpellsTruth s b

/-- The count that an attribute says; without the attribute it is zero. -/
def SaysCount (n : Xml.Node) (key : String) (k : UInt32) : Prop :=
  match n.attribute? key with
  | none => k = 0
  | some s => SpellsCount s k

variable {n : Xml.Node} {element key value : String} {e : Error}

theorem requiredAttribute_eq_ok_iff :
    requiredAttribute n element key = .ok value ↔ n.attribute? key = some value := by
  unfold requiredAttribute
  cases n.attribute? key <;> simp

theorem boolAttribute_eq_ok_iff {b : Bool} : boolAttribute n key = .ok b ↔ SaysTruth n key b := by
  unfold boolAttribute SaysTruth
  cases n.attribute? key with
  | none => simp [eq_comm]
  | some s =>
    simp only [spellsTruth_iff]
    constructor
    · intro h
      split at h
      · rename_i hword
        exact Except.ok.inj h ▸ hword
      · split at h
        · rename_i hword
          exact Except.ok.inj h ▸ hword
        · exact nomatch h
    · intro hword
      cases b with
      | true => exact if_pos hword
      | false =>
        have hfalse : _ = "false".toList := hword
        rw [if_neg (by rw [hfalse]; decide), if_pos hfalse]

theorem countAttribute_eq_ok_iff {k : UInt32} :
    countAttribute n key = .ok k ↔ SaysCount n key k := by
  unfold countAttribute SaysCount
  cases n.attribute? key with
  | none => simp [eq_comm]
  | some s =>
    simp only [spellsCount_iff]
    cases parseCount? (Text.trimChars s.toList) <;> simp

theorem requiredAttribute_eq_error (h : requiredAttribute n element key = .error e) :
    e = .missingAttribute element key := by
  unfold requiredAttribute at h
  split at h
  · exact nomatch h
  · exact (Except.error.inj h).symm

theorem boolAttribute_eq_error (h : boolAttribute n key = .error e) :
    e = .invalidAttribute n.name key ((n.attribute? key).getD "") := by
  unfold boolAttribute at h
  split at h
  · exact nomatch h
  · rename_i s hs
    rw [hs]
    dsimp only at h
    split at h
    · exact nomatch h
    · split at h
      · exact nomatch h
      · exact (Except.error.inj h).symm

theorem countAttribute_eq_error (h : countAttribute n key = .error e) :
    e = .invalidAttribute n.name key ((n.attribute? key).getD "") := by
  unfold countAttribute at h
  split at h
  · exact nomatch h
  · rename_i s hs
    rw [hs]
    split at h
    · exact nomatch h
    · exact (Except.error.inj h).symm

end Schema

end SyntaxGraph
