import SyntaxGraph.Proofs.Formatting
import SyntaxGraph.Proofs.Text.Spacing

/-!
# Tidy texts, letter by letter

What the `whitespace` formatter does can be said without words: the letters of the text stay as they
are, there are no blanks but single spaces between letters, and such a space is there exactly where
the text has blanks and no comma or semicolon follows. This is so although it is done by replacing
twice in a row: taking a space away before one mark never brings a space before another. No other
text has these properties, and a text that is tidy already stays as it is.
-/

namespace SyntaxGraph.Formatter

open Text

/-! ### Replacing a part of a text -/

/-- The text with `new` in the place of each `part`, looked for from left to right behind the one
found last; `skip` characters belong to that one. -/
def replaceFrom (part new : List Char) (skip : Nat) : List Char → List Char
  | [] => []
  | c :: cs =>
    match skip with
    | k + 1 => replaceFrom part new k cs
    | 0 =>
      if part.isPrefixOf (c :: cs) then new ++ replaceFrom part new (part.length - 1) cs
      else c :: replaceFrom part new 0 cs

/-- Closing up before a mark is replacing each space with the mark behind it by the mark. -/
theorem closeUp_eq_replaceFrom {mark : Char} (hmark : mark ≠ ' ') (cs : List Char) :
    closeUp mark cs = replaceFrom [' ', mark] [mark] 0 cs := by
  induction cs with
  | nil => rfl
  | cons c cs ih =>
    rw [closeUp, ih]
    by_cases h : c = ' ' ∧ cs.head? = some mark
    · obtain ⟨rfl, hhead⟩ := h
      obtain ⟨rest, rfl⟩ := List.head?_eq_some_iff.1 hhead
      simp [replaceFrom, hmark.symm]
    · have hpart : ¬[' ', mark].isPrefixOf (c :: cs) = true := by
        intro hstart
        obtain ⟨rest, hrest⟩ := List.isPrefixOf_iff_prefix.1 hstart
        obtain ⟨rfl, rfl⟩ := List.cons.inj hrest
        exact h ⟨rfl, rfl⟩
      rw [if_neg h, replaceFrom, if_neg hpart]

/-- A tidy text is what two replacements in a row make of the words with spaces between them. -/
theorem toList_tidy_eq_replaceFrom (s : String) :
    (tidy s).toList = replaceFrom " ;".toList ";".toList 0
      (replaceFrom " ,".toList ",".toList 0 ([' '].intercalate (words s.toList))) := by
  rw [tidy, String.toList_ofList, closeUp_eq_replaceFrom (by decide),
    closeUp_eq_replaceFrom (by decide)]
  rfl

/-! ### The letters of a tidy text -/

/-- A letter of a tidy text: of a comma and a semicolon the space before it is taken away. -/
def settle (x : Bool × Char) : Bool × Char :=
  (x.1 && (x.2 != ',' && x.2 != ';'), x.2)

/-- The letters of a tidy text; the first one has no space before it anyway. -/
def settleRest : List (Bool × Char) → List (Bool × Char)
  | [] => []
  | x :: xs => x :: xs.map settle

theorem getElem?_settleRest_succ (xs : List (Bool × Char)) (n : Nat) :
    (settleRest xs)[n + 1]? = xs[n + 1]?.map settle := by
  cases xs with
  | nil => rfl
  | cons x xs =>
    rw [settleRest, List.getElem?_cons_succ, List.getElem?_cons_succ, List.getElem?_map]

theorem map_snd_settleRest (xs : List (Bool × Char)) :
    (settleRest xs).map (·.2) = xs.map (·.2) := by
  cases xs with
  | nil => rfl
  | cons x xs => simp [settleRest, settle]

theorem spacingFrom_led {ws : List (List Char)} (hws : ∀ w ∈ ws, IsWord w) :
    spacingFrom false (led gap ws) = (ws.flatMap marks).map settle := by
  induction ws with
  | nil => rfl
  | cons w ws ih =>
    rw [List.forall_mem_cons] at hws
    obtain ⟨⟨hne, hword⟩, hws⟩ := hws
    obtain ⟨c, w, rfl⟩ := List.exists_cons_of_ne_nil hne
    rw [List.forall_mem_cons] at hword
    have hrest : spacingFrom false (w ++ led gap ws) =
        (w.map (false, ·) ++ ws.flatMap marks).map settle := by
      rw [spacingFrom_word hword.2, ih hws, List.map_append]
      simp [settle]
    rw [led_cons, gap, List.flatMap_cons, marks, List.cons_append, List.cons_append,
      List.map_cons, ← hrest]
    split
    · rename_i hmark
      have hsettle : settle (true, c) = (false, c) := by
        have hmark : c = ',' ∨ c = ';' := by simpa using hmark
        rcases hmark with rfl | rfl <;> rfl
      rw [List.nil_append, spacingFrom_cons_of_letter hword.1, hsettle]
    · rename_i hmark
      have hsettle : settle (true, c) = (true, c) := by simpa [settle] using hmark
      rw [List.singleton_append, spacingFrom_cons_of_blank (by decide),
        spacingFrom_cons_of_letter hword.1, hsettle]

theorem spacingFrom_row (cs : List Char) :
    spacingFrom true (row gap (words cs)) = settleRest (spacingFrom true cs) := by
  rw [← flatMap_marks_words cs]
  have hws : ∀ w ∈ words cs, IsWord w := isWord_of_mem_words
  cases hwords : words cs with
  | nil => rfl
  | cons w ws =>
    rw [hwords, List.forall_mem_cons] at hws
    obtain ⟨⟨hne, hword⟩, hws⟩ := hws
    obtain ⟨c, w, rfl⟩ := List.exists_cons_of_ne_nil hne
    rw [List.forall_mem_cons] at hword
    rw [row, List.cons_append, spacingFrom_cons_of_letter hword.1, spacingFrom_word hword.2,
      spacingFrom_led hws, List.flatMap_cons, marks, List.cons_append, settleRest, List.map_append]
    simp [settle]

/-! ### The blanks of a tidy text -/

theorem isSettled_iff {cs : List Char} : isSettled cs = true ↔ BlanksLeadTo follows cs := by
  induction cs with
  | nil => exact iff_of_true rfl fun before c after h => by simp at h
  | cons c cs ih =>
    rw [blanksLeadTo_cons, ← ih, isSettled, Bool.and_eq_true]
    refine and_congr_left' ?_
    cases isBlank c <;> simp

theorem singleSpaced_row (cs : List Char) : SingleSpaced (row gap (words cs)) := by
  rw [singleSpaced_iff]
  rcases eq_or_ne (words cs) [] with hwords | hwords
  · rw [hwords]
    exact ⟨by simp [row], fun before c after h => by simp [row] at h⟩
  · have hkeeps := keepsForm_row isWord_of_mem_words hwords
    rw [keepsForm, Bool.and_eq_true, isSettled_iff] at hkeeps
    obtain ⟨hhead, hsettled⟩ := hkeeps
    refine ⟨fun h => ?_, hsettled.mono fun c hc => ?_⟩
    · rw [h] at hhead
      exact absurd hhead (by decide)
    · rw [follows, Bool.and_assoc, Bool.and_eq_true] at hc
      exact hc.1

/-! ### What a tidy text is -/

/-- What `ds` has to be for it to be `cs` made tidy: its letters are those of `cs` in their order;
its only blanks are single spaces, none of them at either end; and blanks stand between one letter
and the next exactly where they do in `cs`, unless the next one is a comma or a semicolon. -/
structure IsTidied (cs ds : List Char) : Prop where
  letters_eq : letters ds = letters cs
  singleSpaced : SingleSpaced ds
  blankAfter_iff : ∀ n b, (letters cs)[n + 1]? = some b →
    (BlankAfter ds n ↔ BlankAfter cs n ∧ b ≠ ',' ∧ b ≠ ';')

theorem IsTidied.unique {cs ds ds' : List Char} (h : IsTidied cs ds) (h' : IsTidied cs ds') :
    ds = ds' := by
  refine h.singleSpaced.eq h'.singleSpaced ?_
  refine spacingFrom_eq (h.letters_eq.trans h'.letters_eq.symm) fun n b hb => ?_
  rw [h.letters_eq] at hb
  exact (h.blankAfter_iff n b hb).trans (h'.blankAfter_iff n b hb).symm

theorem isTidied_row (cs : List Char) : IsTidied cs (row gap (words cs)) where
  letters_eq := by
    rw [← map_snd_spacingFrom true, spacingFrom_row, map_snd_settleRest, map_snd_spacingFrom]
  singleSpaced := singleSpaced_row cs
  blankAfter_iff n b hb := by
    obtain ⟨g, hg, hgap⟩ := getElem?_spacingFrom_succ true hb
    rw [blankAfter_iff true, spacingFrom_row, getElem?_settleRest_succ, hg, ← hgap]
    simp [settle]

theorem tidy_tidy (s : String) : tidy (tidy s) = tidy s := by
  rw [← String.toList_inj, toList_tidy (tidy s), toList_tidy s]
  rcases eq_or_ne (words s.toList) [] with hwords | hwords
  · rw [hwords]
    rfl
  · exact row_words (keepsForm_row isWord_of_mem_words hwords)

/-- **The `whitespace` formatter is exact, and formatting twice changes nothing more.** Formatting
always gives a text, which is the one and only that is the given text made tidy, and which is given
back when it is formatted again. -/
theorem format_whitespace_exact (s : String) :
    ∃ t, whitespace.format s = .ok t ∧ (∀ u, IsTidied s.toList u.toList ↔ u = t) ∧
      whitespace.format t = .ok t := by
  have htidy : IsTidied s.toList (tidy s).toList := by
    rw [toList_tidy]
    exact isTidied_row s.toList
  refine ⟨tidy s, rfl, fun u => ⟨fun hu => ?_, fun hu => hu ▸ htidy⟩, ?_⟩
  · exact String.toList_inj.1 (hu.unique htidy)
  · exact congrArg Except.ok (tidy_tidy s)

end SyntaxGraph.Formatter
