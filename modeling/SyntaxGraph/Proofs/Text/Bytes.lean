import Mathlib.Data.List.Lex

/-!
# Texts in the order of their bytes

Texts are compared character by character. This is the order of their bytes, too: of two characters
the smaller one has the smaller first byte, or the same first byte and the smaller second one, and
so on, so that the bytes differ before either character is at its end.
-/

namespace SyntaxGraph.Text

/-- The bytes of a text. -/
def bytes (s : String) : List UInt8 :=
  s.toUTF8.data.toList

theorem bytes_eq_flatMap (s : String) : bytes s = s.toList.flatMap String.utf8EncodeChar := by
  have hencode : s.toUTF8 = (s.toList.flatMap String.utf8EncodeChar).toByteArray :=
    String.utf8Encode_toList.symm
  rw [bytes, hencode, List.toList_data_toByteArray]

/-- Bytes that are given by their numbers are compared by these. -/
theorem ofNat_cons_lt_ofNat_cons {a b : Nat} (ha : a < 256) (hb : b < 256) {xs ys : List UInt8} :
    UInt8.ofNat a :: xs < UInt8.ofNat b :: ys ↔ a < b ∨ a = b ∧ xs < ys := by
  have hlt : UInt8.ofNat a < UInt8.ofNat b ↔ a < b := by
    rw [UInt8.lt_iff_toNat_lt, UInt8.toNat_ofNat_of_lt' ha, UInt8.toNat_ofNat_of_lt' hb]
  have heq : UInt8.ofNat a = UInt8.ofNat b ↔ a = b := by
    rw [← UInt8.toNat_inj, UInt8.toNat_ofNat_of_lt' ha, UInt8.toNat_ofNat_of_lt' hb]
  rw [List.cons_lt_cons_iff, hlt, heq]

theorem toNat_val_lt (c : Char) : c.val.toNat < 0x110000 := by
  have hvalid := c.valid
  simp only [UInt32.isValidChar, Nat.isValidChar] at hvalid
  omega

/-- The bytes of a smaller character come first, whatever follows either of them. -/
theorem utf8EncodeChar_append_lt {c d : Char} (h : c < d) (xs ys : List UInt8) :
    String.utf8EncodeChar c ++ xs < String.utf8EncodeChar d ++ ys := by
  have hlt : c.val.toNat < d.val.toNat := UInt32.lt_iff_toNat_lt.1 h
  have hc := toNat_val_lt c
  have hd := toNat_val_lt d
  -- the bytes hold the digits of the character to the base 64
  have hdigits : ∀ n < 0x110000, n / 64 / 64 = n / 4096 ∧ n / 4096 / 64 = n / 262144 ∧
      n / 262144 % 8 = n / 262144 := by
    intro n hn
    refine ⟨Nat.div_div_eq_div_mul n 64 64, Nat.div_div_eq_div_mul n 4096 64, ?_⟩
    exact Nat.mod_eq_of_lt (by omega)
  unfold String.utf8EncodeChar
  generalize c.val.toNat = v at hlt hc ⊢
  generalize d.val.toNat = w at hlt hd ⊢
  obtain ⟨hv₂, hv₁, hv₀⟩ := hdigits v hc
  obtain ⟨hw₂, hw₁, hw₀⟩ := hdigits w hd
  dsimp only
  split_ifs <;>
    simp (disch := omega) only [List.cons_append, List.nil_append, ofNat_cons_lt_ofNat_cons] <;>
    omega

/-- **A text that comes before another one does so in its bytes.** -/
theorem bytes_lt_bytes {s t : String} (h : s < t) : bytes s < bytes t := by
  rw [bytes_eq_flatMap, bytes_eq_flatMap]
  have hlex : s.toList < t.toList := String.lt_iff.1 h
  generalize s.toList = cs at hlex ⊢
  generalize t.toList = ds at hlex ⊢
  induction ds generalizing cs with
  | nil => exact absurd hlex (List.not_lt_nil cs)
  | cons d ds ih =>
    cases cs with
    | nil =>
      rw [List.flatMap_nil, List.flatMap_cons]
      obtain ⟨b, bs, hb⟩ := List.exists_cons_of_ne_nil (String.utf8EncodeChar_ne_nil (c := d))
      rw [hb]
      exact List.nil_lt_cons _ _
    | cons c cs =>
      rw [List.flatMap_cons, List.flatMap_cons]
      rcases List.cons_lt_cons_iff.1 hlex with hcd | ⟨rfl, hrest⟩
      · exact utf8EncodeChar_append_lt hcd _ _
      · exact List.append_left_lt (ih cs hrest)

end SyntaxGraph.Text
