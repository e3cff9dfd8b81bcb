import Mathlib.Data.List.Infix
import SyntaxGraph.Text.Blank

/-!
# Letters and the blanks between them

A text is taken apart into its letters, the characters that are not blank, each with what stands
right before it: a blank or the beginning of the text, or else the letter before it. This is what
its words tell, too. Of a text with single spaces, and none at either end, nothing is lost in this.
-/

namespace SyntaxGraph.Text

/-- The characters that are not blank. -/
def letters (cs : List Char) : List Char :=
  cs.filter (!isBlank ·)

/-- The letters, each with whether a blank stands right before it; `gap` says this of the first
one if no blank comes before it. -/
def spacingFrom (gap : Bool) : List Char → List (Bool × Char)
  | [] => []
  | c :: cs => if isBlank c then spacingFrom true cs else (gap, c) :: spacingFrom false cs

variable {gap : Bool} {cs : List Char} {c : Char}

theorem spacingFrom_cons_of_blank (h : isBlank c = true) :
    spacingFrom gap (c :: cs) = spacingFrom true cs := by
  rw [spacingFrom, if_pos h]

theorem spacingFrom_cons_of_letter (h : isBlank c = false) :
    spacingFrom gap (c :: cs) = (gap, c) :: spacingFrom false cs := by
  rw [spacingFrom, if_neg (by simp [h])]

theorem map_snd_spacingFrom (gap : Bool) (cs : List Char) :
    (spacingFrom gap cs).map (·.2) = letters cs := by
  induction cs generalizing gap with
  | nil => rfl
  | cons c cs ih => cases hc : isBlank c <;> simp [spacingFrom, letters, hc, ih]

theorem length_spacingFrom (gap : Bool) (cs : List Char) :
    (spacingFrom gap cs).length = (letters cs).length := by
  rw [← map_snd_spacingFrom gap cs, List.length_map]

theorem getElem?_letters (gap : Bool) (cs : List Char) (n : Nat) :
    (letters cs)[n]? = (spacingFrom gap cs)[n]?.map (·.2) := by
  rw [← map_snd_spacingFrom gap cs, List.getElem?_map]

/-- What is said of a text goes on at a letter in it. -/
theorem exists_spacingFrom_append (gap : Bool) (h : isBlank c = false) (before after : List Char) :
    ∃ g, spacingFrom gap (before ++ c :: after) =
      spacingFrom gap before ++ (g, c) :: spacingFrom false after := by
  induction before generalizing gap with
  | nil => exact ⟨gap, spacingFrom_cons_of_letter h⟩
  | cons d before ih =>
    cases hd : isBlank d with
    | true =>
      obtain ⟨g, hg⟩ := ih true
      exact ⟨g, by simp only [List.cons_append, spacingFrom_cons_of_blank hd, hg]⟩
    | false =>
      obtain ⟨g, hg⟩ := ih false
      exact ⟨g, by simp only [List.cons_append, spacingFrom_cons_of_letter hd, hg]⟩

/-- Some blanks are as good as one. -/
theorem spacingFrom_blanks_append {blanks : List Char} (hne : blanks ≠ [])
    (h : ∀ b ∈ blanks, isBlank b = true) (after : List Char) :
    spacingFrom gap (blanks ++ after) = spacingFrom true after := by
  induction blanks generalizing gap with
  | nil => exact absurd rfl hne
  | cons b blanks ih =>
    rw [List.forall_mem_cons] at h
    rw [List.cons_append, spacingFrom_cons_of_blank h.1]
    cases blanks with
    | nil => rfl
    | cons d blanks => exact ih (by simp) h.2

/-! ### Blanks between letters -/

/-- Blanks stand between the letters `n` and `n + 1`, counted from zero. -/
def BlankAfter (cs : List Char) (n : Nat) : Prop :=
  ∃ before a blanks b after, cs = before ++ a :: (blanks ++ b :: after) ∧
    isBlank a = false ∧ isBlank b = false ∧ blanks ≠ [] ∧ (∀ c ∈ blanks, isBlank c = true) ∧
    (letters before).length = n

theorem BlankAfter.cons_blank {n : Nat} (h : BlankAfter cs n) (hc : isBlank c = true) :
    BlankAfter (c :: cs) n := by
  obtain ⟨before, a, blanks, b, after, rfl, ha, hb, hne, hblanks, rfl⟩ := h
  exact ⟨c :: before, a, blanks, b, after, rfl, ha, hb, hne, hblanks, by simp [letters, hc]⟩

theorem BlankAfter.cons_letter {n : Nat} (h : BlankAfter cs n) (hc : isBlank c = false) :
    BlankAfter (c :: cs) (n + 1) := by
  obtain ⟨before, a, blanks, b, after, rfl, ha, hb, hne, hblanks, rfl⟩ := h
  exact ⟨c :: before, a, blanks, b, after, rfl, ha, hb, hne, hblanks, by simp [letters, hc]⟩

/-- The first letter stands behind blanks only, and behind some if it has a blank before it. -/
theorem exists_blanks_of_head? {g : Bool} {b : Char}
    (h : (spacingFrom gap cs).head? = some (g, b)) :
    ∃ blanks after, cs = blanks ++ b :: after ∧ isBlank b = false ∧
      (∀ c ∈ blanks, isBlank c = true) ∧ (g ≠ gap → blanks ≠ []) := by
  induction cs generalizing gap with
  | nil => simp [spacingFrom] at h
  | cons c cs ih =>
    cases hc : isBlank c with
    | true =>
      rw [spacingFrom_cons_of_blank hc] at h
      obtain ⟨blanks, after, rfl, hb, hblanks, -⟩ := ih h
      exact ⟨c :: blanks, after, rfl, hb, List.forall_mem_cons.2 ⟨hc, hblanks⟩, by simp⟩
    | false =>
      rw [spacingFrom_cons_of_letter hc] at h
      obtain ⟨rfl, rfl⟩ : gap = g ∧ c = b := by simpa using h
      exact ⟨[], cs, rfl, hc, by simp, fun hne => absurd rfl hne⟩

theorem blankAfter_iff (gap : Bool) {n : Nat} :
    BlankAfter cs n ↔ ∃ b, (spacingFrom gap cs)[n + 1]? = some (true, b) := by
  constructor
  · rintro ⟨before, a, blanks, b, after, rfl, ha, hb, hne, hblanks, rfl⟩
    obtain ⟨g, hg⟩ := exists_spacingFrom_append gap ha before (blanks ++ b :: after)
    rw [hg, spacingFrom_blanks_append hne hblanks, spacingFrom_cons_of_letter hb,
      ← length_spacingFrom gap]
    exact ⟨b, by simp⟩
  · rintro ⟨b, h⟩
    induction cs generalizing gap n with
    | nil => simp [spacingFrom] at h
    | cons c cs ih =>
      cases hc : isBlank c with
      | true =>
        rw [spacingFrom_cons_of_blank hc] at h
        exact (ih true h).cons_blank hc
      | false =>
        rw [spacingFrom_cons_of_letter hc, List.getElem?_cons_succ] at h
        cases n with
        | succ n => exact (ih false h).cons_letter hc
        | zero =>
          -- the blanks begin right behind the first letter
          rw [← List.head?_eq_getElem?] at h
          obtain ⟨blanks, after, rfl, hb, hblanks, hne⟩ := exists_blanks_of_head? h
          exact ⟨[], c, blanks, b, after, rfl, hc, hb, hne (by simp), hblanks, rfl⟩

/-- The first letter has what begins the text before it. -/
theorem head?_spacingFrom_true (cs : List Char) :
    (spacingFrom true cs).head? = (letters cs).head?.map (true, ·) := by
  induction cs with
  | nil => rfl
  | cons c cs ih => cases hc : isBlank c <;> simp_all [spacingFrom, letters]

theorem getElem?_spacingFrom_succ (gap : Bool) {n : Nat} {b : Char}
    (h : (letters cs)[n + 1]? = some b) :
    ∃ g, (spacingFrom gap cs)[n + 1]? = some (g, b) ∧ (g = true ↔ BlankAfter cs n) := by
  rw [getElem?_letters gap, Option.map_eq_some_iff] at h
  obtain ⟨⟨g, b⟩, hg, rfl⟩ := h
  refine ⟨g, hg, ?_⟩
  simp only [blankAfter_iff gap, hg, Option.some_inj, Prod.mk.injEq, exists_and_left, exists_eq',
    and_true]

/-- The letters and the blanks between them are all there is. -/
theorem spacingFrom_eq {ds : List Char} (hletters : letters cs = letters ds)
    (h : ∀ n b, (letters cs)[n + 1]? = some b → (BlankAfter cs n ↔ BlankAfter ds n)) :
    spacingFrom true cs = spacingFrom true ds := by
  refine List.ext_getElem? fun n => ?_
  cases n with
  | zero =>
    rw [← List.head?_eq_getElem?, ← List.head?_eq_getElem?, head?_spacingFrom_true,
      head?_spacingFrom_true, hletters]
  | succ n =>
    cases hb : (letters cs)[n + 1]? with
    | none =>
      have hb' := hb
      rw [hletters] at hb'
      rw [getElem?_letters true, Option.map_eq_none_iff] at hb hb'
      rw [hb, hb']
    | some b =>
      obtain ⟨g, hg, hgap⟩ := getElem?_spacingFrom_succ true hb
      obtain ⟨g', hg', hgap'⟩ := getElem?_spacingFrom_succ true (hletters ▸ hb)
      have hsame : g = g' := Bool.eq_iff_iff.2 (hgap.trans ((h n b hb).trans hgap'.symm))
      rw [hg, hg', hsame]

/-! ### Words -/

/-- The letters of a word: before the first one there is a blank. -/
def marks : List Char → List (Bool × Char)
  | [] => []
  | c :: w => (true, c) :: w.map (false, ·)

theorem marks_concat (w : List Char) (c : Char) :
    marks (w ++ [c]) = marks w ++ [(w.isEmpty, c)] := by
  cases w <;> simp [marks]

theorem flatMap_marks_keepWord (word : List Char) (rest : List (List Char)) :
    (keepWord word rest).flatMap marks = marks word.reverse ++ rest.flatMap marks := by
  rw [keepWord]
  split
  · rename_i hempty
    rw [List.isEmpty_iff.1 hempty]
    rfl
  · rw [List.flatMap_cons]

/-- The words tell the letters and what stands before them. -/
theorem flatMap_marks_wordsFrom (word cs : List Char) :
    (wordsFrom word cs).flatMap marks = marks word.reverse ++ spacingFrom word.isEmpty cs := by
  induction cs generalizing word with
  | nil => rw [wordsFrom, flatMap_marks_keepWord]; rfl
  | cons c cs ih =>
    rw [wordsFrom]
    cases hc : isBlank c with
    | true =>
      rw [if_pos rfl, flatMap_marks_keepWord, ih, spacingFrom_cons_of_blank hc]
      rfl
    | false =>
      rw [if_neg (by simp), ih, spacingFrom_cons_of_letter hc, List.reverse_cons, marks_concat,
        List.append_assoc, List.isEmpty_reverse]
      rfl

theorem flatMap_marks_words (cs : List Char) : (words cs).flatMap marks = spacingFrom true cs :=
  flatMap_marks_wordsFrom [] cs

theorem spacingFrom_word {w : List Char} (hw : ∀ d ∈ w, isBlank d = false) (rest : List Char) :
    spacingFrom false (w ++ rest) = w.map (false, ·) ++ spacingFrom false rest := by
  induction w with
  | nil => rfl
  | cons d w ih =>
    rw [List.forall_mem_cons] at hw
    rw [List.cons_append, spacingFrom_cons_of_letter hw.1, ih hw.2]
    rfl

/-! ### Single spaces -/

/-- Every blank is a space right before a character of a class. -/
def BlanksLeadTo (p : Char → Bool) (cs : List Char) : Prop :=
  ∀ before c after, cs = before ++ c :: after → isBlank c = true →
    c = ' ' ∧ after.head?.any p = true

theorem blanksLeadTo_cons {p : Char → Bool} : BlanksLeadTo p (c :: cs) ↔
    (isBlank c = true → c = ' ' ∧ cs.head?.any p = true) ∧ BlanksLeadTo p cs := by
  constructor
  · refine fun h => ⟨h [] c cs rfl, fun before d after hcs => ?_⟩
    exact h (c :: before) d after (by rw [hcs, List.cons_append])
  · rintro ⟨hc, hcs⟩ before d after h
    rcases List.cons_eq_append_iff.1 h with ⟨rfl, hafter⟩ | ⟨before, rfl, hbefore⟩
    · obtain ⟨rfl, rfl⟩ := List.cons.inj hafter
      exact hc
    · exact hcs before d after hbefore

theorem BlanksLeadTo.mono {p q : Char → Bool} (h : BlanksLeadTo p cs)
    (hpq : ∀ c, p c = true → q c = true) : BlanksLeadTo q cs := by
  intro before c after hcs hc
  obtain ⟨hspace, hnext⟩ := h before c after hcs hc
  refine ⟨hspace, ?_⟩
  cases after with
  | nil => exact hnext
  | cons d after => exact hpq d hnext

/-- The only blank is the space, and it stands neither first nor last nor twice in a row. -/
structure SingleSpaced (cs : List Char) : Prop where
  eq_space : ∀ c ∈ cs, isBlank c = true → c = ' '
  head?_ne : cs.head? ≠ some ' '
  getLast?_ne : cs.getLast? ≠ some ' '
  single : ¬[' ', ' '] <:+: cs

theorem singleSpaced_iff :
    SingleSpaced cs ↔ cs.head? ≠ some ' ' ∧ BlanksLeadTo (!isBlank ·) cs := by
  have hspace : isBlank ' ' = true := by decide
  constructor
  · refine fun h => ⟨h.head?_ne, ?_⟩
    rintro before c after rfl hc
    obtain rfl := h.eq_space c (by simp) hc
    refine ⟨rfl, ?_⟩
    cases after with
    | nil => exact absurd (List.getLast?_concat ..) h.getLast?_ne
    | cons d after =>
      cases hd : isBlank d with
      | false => simp [hd]
      | true =>
        obtain rfl := h.eq_space d (by simp) hd
        exact absurd ⟨before, after, by simp⟩ h.single
  · rintro ⟨hhead, hblanks⟩
    refine ⟨fun c hc => ?_, hhead, fun hlast => ?_, ?_⟩
    · obtain ⟨before, after, rfl⟩ := List.append_of_mem hc
      exact fun hblank => (hblanks before c after rfl hblank).1
    · obtain ⟨before, rfl⟩ := List.getLast?_eq_some_iff.1 hlast
      exact Bool.noConfusion (hblanks before ' ' [] rfl hspace).2
    · rintro ⟨before, after, rfl⟩
      have hnext := (hblanks before ' ' (' ' :: after) (by simp) hspace).2
      simp [hspace] at hnext

/-- Letters with a space before those that have a blank before them. -/
def spaced (xs : List (Bool × Char)) : List Char :=
  xs.flatMap fun x => if x.1 then [' ', x.2] else [x.2]

/-- Nothing is lost where every blank is a space before a letter. -/
theorem spaced_spacingFrom (hblanks : BlanksLeadTo (!isBlank ·) cs)
    (hgap : gap = true → cs.head?.any (!isBlank ·) = true) :
    spaced (spacingFrom gap cs) = (if gap then [' '] else []) ++ cs := by
  induction cs generalizing gap with
  | nil =>
    cases gap with
    | false => rfl
    | true => exact absurd (hgap rfl) (by simp)
  | cons c cs ih =>
    cases hc : isBlank c with
    | true =>
      obtain ⟨rfl, hnext⟩ := (blanksLeadTo_cons.1 hblanks).1 hc
      have hgap : gap = false := by
        cases gap with
        | false => rfl
        | true => simp [hc] at hgap
      rw [spacingFrom_cons_of_blank hc, ih (blanksLeadTo_cons.1 hblanks).2 fun _ => hnext, hgap]
      rfl
    | false =>
      have ih : spaced (spacingFrom false cs) = cs :=
        ih (blanksLeadTo_cons.1 hblanks).2 fun h => Bool.noConfusion h
      rw [spaced] at ih
      rw [spacingFrom_cons_of_letter hc, spaced, List.flatMap_cons, ih]
      cases gap <;> rfl

theorem SingleSpaced.spaced_eq (h : SingleSpaced cs) (hne : cs ≠ []) :
    spaced (spacingFrom true cs) = ' ' :: cs := by
  have hhead : cs.head?.any (!isBlank ·) = true := by
    obtain ⟨c, cs, rfl⟩ := List.exists_cons_of_ne_nil hne
    cases hc : isBlank c with
    | false => simp [hc]
    | true => exact absurd (congrArg some (h.eq_space c List.mem_cons_self hc)) h.head?_ne
  exact spaced_spacingFrom (singleSpaced_iff.1 h).2 fun _ => hhead

/-- A text with single spaces is told by its letters and what stands before them. -/
theorem SingleSpaced.eq {ds : List Char} (hcs : SingleSpaced cs) (hds : SingleSpaced ds)
    (h : spacingFrom true cs = spacingFrom true ds) : cs = ds := by
  have hspaced : spaced (spacingFrom true cs) = spaced (spacingFrom true ds) := congrArg spaced h
  rcases eq_or_ne cs [] with rfl | hcs'
  · rcases eq_or_ne ds [] with rfl | hds'
    · rfl
    · rw [hds.spaced_eq hds'] at hspaced
      exact absurd hspaced.symm (List.cons_ne_nil _ _)
  · rcases eq_or_ne ds [] with rfl | hds'
    · rw [hcs.spaced_eq hcs'] at hspaced
      exact absurd hspaced (List.cons_ne_nil _ _)
    · rw [hcs.spaced_eq hcs', hds.spaced_eq hds'] at hspaced
      exact (List.cons.inj hspaced).2

end SyntaxGraph.Text
