import Mathlib.Data.List.Basic
import SyntaxGraph.Formatter

/-!
# Formatting

The `whitespace` formatter sees a text, not the tokens that were written to it. What it gives back
are the words of the text, each after a space, or after nothing if it begins with a comma or a
semicolon. So the tokens come through as they are exactly when all of them keep their form: a token
does not begin with a blank, and every blank in it is a space before a character that is neither
blank nor a comma or a semicolon. Any other token, be it the literal of a string, is changed.
-/

namespace SyntaxGraph

/-! ### Words -/

namespace Text

theorem keepWord_append (word : List Char) (rest rest' : List (List Char)) :
    keepWord word (rest ++ rest') = keepWord word rest ++ rest' := by
  unfold keepWord
  split <;> rfl

/-- A blank ends the word that is being read. -/
theorem wordsFrom_append_cons {b : Char} (hb : isBlank b = true) (word cs ds : List Char) :
    wordsFrom word (cs ++ b :: ds) = wordsFrom word cs ++ words ds := by
  induction cs generalizing word with
  | nil =>
    simp only [List.nil_append, wordsFrom, hb, if_true]
    exact keepWord_append word [] (words ds)
  | cons c cs ih =>
    rw [List.cons_append, wordsFrom, wordsFrom, ih, ih]
    split
    · exact keepWord_append word _ (words ds)
    · rfl

/-- Some characters without a blank. -/
def IsWord (w : List Char) : Prop :=
  w ≠ [] ∧ ∀ c ∈ w, isBlank c = false

theorem IsWord.space_notMem {w : List Char} (h : IsWord w) : ' ' ∉ w :=
  fun hmem => Bool.noConfusion (h.2 ' ' hmem)

theorem isWord_of_mem_keepWord {word w : List Char} {rest : List (List Char)}
    (hword : ∀ c ∈ word, isBlank c = false) (hrest : ∀ v ∈ rest, IsWord v)
    (hw : w ∈ keepWord word rest) : IsWord w := by
  unfold keepWord at hw
  split at hw
  · exact hrest w hw
  · rename_i hne
    rcases List.mem_cons.1 hw with rfl | hw
    · exact ⟨by simpa using hne, by simpa using hword⟩
    · exact hrest w hw

theorem isWord_of_mem_wordsFrom {word cs : List Char} (hword : ∀ c ∈ word, isBlank c = false) :
    ∀ w ∈ wordsFrom word cs, IsWord w := by
  induction cs generalizing word with
  | nil => exact fun w hw => isWord_of_mem_keepWord hword (by simp) hw
  | cons c cs ih =>
    rw [wordsFrom]
    split
    · exact fun w hw => isWord_of_mem_keepWord hword (ih (by simp)) hw
    · rename_i hc
      exact ih (List.forall_mem_cons.2 ⟨by simpa using hc, hword⟩)

theorem isWord_of_mem_words {cs : List Char} : ∀ w ∈ words cs, IsWord w :=
  isWord_of_mem_wordsFrom (by simp)

/-- The words of texts with a blank after each of them. -/
theorem words_flatMap {b : Char} (hb : isBlank b = true) (ts : List (List Char)) :
    words (ts.flatMap (· ++ [b])) = ts.flatMap words := by
  induction ts with
  | nil => rfl
  | cons t ts ih =>
    rw [List.flatMap_cons, List.flatMap_cons, List.append_assoc, List.singleton_append, ← ih]
    exact wordsFrom_append_cons hb [] t _

end Text

namespace Formatter

/-! ### Words in a row -/

/-- Each word after what stands before it. -/
def led (gap : List Char → List Char) (ws : List (List Char)) : List Char :=
  ws.flatMap fun w => gap w ++ w

theorem led_cons (gap : List Char → List Char) (w : List Char) (ws : List (List Char)) :
    led gap (w :: ws) = gap w ++ (w ++ led gap ws) := by
  rw [led, List.flatMap_cons, List.append_assoc]
  rfl

/-- The words in a row; nothing stands before the first one. -/
def row (gap : List Char → List Char) : List (List Char) → List Char
  | [] => []
  | w :: ws => w ++ led gap ws

/-- What stands before a word in a tidy text. -/
def gap (w : List Char) : List Char :=
  if w.head? = some ',' ∨ w.head? = some ';' then [] else [' ']

theorem collapse_eq_row (cs : List Char) : collapse cs = row (fun _ => [' ']) (Text.words cs) := by
  rw [collapse]
  cases Text.words cs with
  | nil => rfl
  | cons w ws =>
    induction ws generalizing w with
    | nil => simp [row, led]
    | cons v ws ih =>
      rw [List.intercalate_cons_cons, ih]
      simp [row, led]

/-! ### Closing up -/

theorem closeUp_append {mark : Char} {w : List Char} (hw : ' ' ∉ w) (rest : List Char) :
    closeUp mark (w ++ rest) = w ++ closeUp mark rest := by
  induction w with
  | nil => rfl
  | cons c w ih =>
    rw [List.mem_cons, not_or] at hw
    have hc : ¬(c = ' ' ∧ (w ++ rest).head? = some mark) := fun h => hw.1 h.1.symm
    rw [List.cons_append, closeUp, if_neg hc, ih hw.2, List.cons_append]

/-- Closing up before a mark takes away the space before the words that begin with the mark. -/
theorem closeUp_led {mark : Char} {gap : List Char → List Char}
    (hgap : ∀ w, gap w = [] ∨ gap w = [' ']) {ws : List (List Char)}
    (hws : ∀ w ∈ ws, Text.IsWord w) : closeUp mark (led gap ws) =
      led (fun w => if w.head? = some mark then [] else gap w) ws := by
  induction ws with
  | nil => rfl
  | cons w ws ih =>
    rw [List.forall_mem_cons] at hws
    have hspace := hws.1.space_notMem
    have hhead : (w ++ led gap ws).head? = w.head? := by
      rw [List.head?_append_of_ne_nil _ hws.1.1]
    have hrest : closeUp mark (w ++ led gap ws) =
        w ++ led (fun w => if w.head? = some mark then [] else gap w) ws := by
      rw [closeUp_append hspace, ih hws.2]
    simp only [led_cons]
    rcases hgap w with hw | hw
    · simp only [hw, List.nil_append, hrest, ite_self]
    · by_cases hmark : w.head? = some mark
      · simp [hw, closeUp, hhead, hmark, hrest]
      · simp [hw, closeUp, hhead, hmark, hrest]

theorem closeUp_row {mark : Char} {gap : List Char → List Char}
    (hgap : ∀ w, gap w = [] ∨ gap w = [' ']) {ws : List (List Char)}
    (hws : ∀ w ∈ ws, Text.IsWord w) : closeUp mark (row gap ws) =
      row (fun w => if w.head? = some mark then [] else gap w) ws := by
  cases ws with
  | nil => rfl
  | cons w ws =>
    rw [List.forall_mem_cons] at hws
    rw [row, row, closeUp_append hws.1.space_notMem, closeUp_led hgap hws.2]

/-- **A tidy text is the row of its words.** -/
theorem toList_tidy (s : String) : (tidy s).toList = row gap (Text.words s.toList) := by
  have hgap : (fun w : List Char => if w.head? = some ';' then []
      else if w.head? = some ',' then [] else [' ']) = gap := by
    funext w
    unfold gap
    split <;> split <;> simp_all
  rw [tidy, String.toList_ofList, collapse_eq_row, closeUp_row (by simp) Text.isWord_of_mem_words,
    closeUp_row (fun w => by split <;> simp) Text.isWord_of_mem_words, hgap]

/-! ### What keeps its form -/

/-- The character can stand right after a space. -/
def follows (c : Char) : Bool :=
  !Text.isBlank c && c != ',' && c != ';'

/-- Every blank is a space, and what comes next can stand right after it. -/
def isSettled : List Char → Bool
  | [] => true
  | c :: cs => (!Text.isBlank c || (c == ' ' && cs.head?.any follows)) && isSettled cs

/-- The text does not begin with a blank, and every blank in it is a space right before a character
that is neither blank nor a comma or a semicolon. -/
def keepsForm (cs : List Char) : Bool :=
  cs.head?.any (!Text.isBlank ·) && isSettled cs

theorem isSettled_append {w : List Char} (hw : ∀ c ∈ w, Text.isBlank c = false)
    (rest : List Char) : isSettled (w ++ rest) = isSettled rest := by
  induction w with
  | nil => rfl
  | cons c w ih =>
    rw [List.forall_mem_cons] at hw
    simp [isSettled, hw.1, ih hw.2]

theorem isSettled_led {ws : List (List Char)} (hws : ∀ w ∈ ws, Text.IsWord w) :
    isSettled (led gap ws) = true := by
  induction ws with
  | nil => rfl
  | cons w ws ih =>
    rw [List.forall_mem_cons] at hws
    obtain ⟨⟨hne, hword⟩, hws⟩ := hws
    have hrest : isSettled (w ++ led gap ws) = true := by
      rw [isSettled_append hword, ih hws]
    rw [led_cons, gap]
    split
    · exact hrest
    · rename_i hmark
      obtain ⟨c, w, rfl⟩ := List.exists_cons_of_ne_nil hne
      have hc := hword c List.mem_cons_self
      have hfollows : follows c = true := by simpa [follows, hc] using hmark
      simpa [isSettled, hfollows] using hrest

/-- What stands before a row of words is what stands before the first one. -/
theorem led_of_row {ws : List (List Char)} {cs : List Char} (hws : ∀ w ∈ ws, Text.IsWord w)
    (hcs : cs ≠ []) (h : row gap ws = cs) : led gap ws = gap cs ++ cs := by
  cases ws with
  | nil => exact absurd h.symm hcs
  | cons w ws =>
    have hhead : cs.head? = w.head? := by
      rw [← h, row, List.head?_append_of_ne_nil _ (hws w List.mem_cons_self).1]
    have hgap : gap cs = gap w := by simp only [gap, hhead]
    rw [hgap, ← h, led_cons, row]

/-- A settled text is the row of its words. The word that is being read comes first. -/
theorem row_wordsFrom {word cs : List Char}
    (hstart : word ≠ [] ∨ cs.head?.any (!Text.isBlank ·) = true) (hcs : isSettled cs = true) :
    row gap (Text.wordsFrom word cs) = word.reverse ++ cs := by
  induction cs generalizing word with
  | nil =>
    have hne : word ≠ [] := by simpa using hstart
    simp [Text.wordsFrom, Text.keepWord, hne, row, led]
  | cons c cs ih =>
    rw [isSettled, Bool.and_eq_true] at hcs
    rw [Text.wordsFrom]
    split
    · -- the blank ends a word, and the character after it begins the next one
      rename_i hblank
      have hne : word ≠ [] := by simpa [hblank] using hstart
      obtain ⟨rfl, hnext⟩ : c = ' ' ∧ cs.head?.any follows = true := by
        simpa [hblank] using hcs.1
      obtain ⟨d, ds, rfl⟩ : ∃ d ds, cs = d :: ds := by
        refine List.exists_cons_of_ne_nil ?_
        rintro rfl
        simp at hnext
      have hd : Text.isBlank d = false ∧ d ≠ ',' ∧ d ≠ ';' := by
        simpa [follows, and_assoc] using hnext
      have hrest : row gap (Text.wordsFrom [] (d :: ds)) = d :: ds :=
        ih (.inr (by simp [hd.1])) hcs.2
      have hled := led_of_row (Text.isWord_of_mem_wordsFrom (by simp)) (by simp) hrest
      have hgap : gap (d :: ds) = [' '] := by simp [gap, hd.2]
      simp [Text.keepWord, hne, row, hled, hgap]
    · rw [ih (.inl (by simp)) hcs.2]
      simp

theorem row_words {cs : List Char} (h : keepsForm cs = true) : row gap (Text.words cs) = cs := by
  rw [keepsForm, Bool.and_eq_true] at h
  exact row_wordsFrom (.inr h.1) h.2

/-- A row of words keeps its form. -/
theorem keepsForm_row {ws : List (List Char)} (hws : ∀ w ∈ ws, Text.IsWord w) (hne : ws ≠ []) :
    keepsForm (row gap ws) = true := by
  obtain ⟨w, ws, rfl⟩ := List.exists_cons_of_ne_nil hne
  rw [List.forall_mem_cons] at hws
  obtain ⟨⟨hw, hword⟩, hws⟩ := hws
  rw [row, keepsForm, isSettled_append hword, isSettled_led hws, Bool.and_true]
  obtain ⟨c, w, rfl⟩ := List.exists_cons_of_ne_nil hw
  simp [hword c List.mem_cons_self]

/-! ### Tokens -/

theorem ne_nil_of_keepsForm {cs : List Char} (h : keepsForm cs = true) : cs ≠ [] := by
  rintro rfl
  exact Bool.noConfusion h

theorem led_flatMap_words {ts : List (List Char)} (hts : ∀ t ∈ ts, keepsForm t = true) :
    led gap (ts.flatMap Text.words) = led gap ts := by
  rw [led, led, List.flatMap_assoc]
  refine List.flatMap_congr fun t ht => ?_
  have ht := hts t ht
  exact led_of_row Text.isWord_of_mem_words (ne_nil_of_keepsForm ht) (row_words ht)

/-- Tokens that keep their form stand in a row like their words. -/
theorem row_flatMap_words {ts : List (List Char)} (hts : ∀ t ∈ ts, keepsForm t = true) :
    row gap (ts.flatMap Text.words) = row gap ts := by
  cases ts with
  | nil => rfl
  | cons t ts =>
    rw [List.forall_mem_cons] at hts
    have ht := row_words hts.1
    cases hwords : Text.words t with
    | nil =>
      rw [hwords] at ht
      exact absurd ht.symm (ne_nil_of_keepsForm hts.1)
    | cons w ws =>
      rw [hwords, row] at ht
      have hled : led gap (ws ++ ts.flatMap Text.words) =
          led gap ws ++ led gap (ts.flatMap Text.words) := List.flatMap_append
      rw [List.flatMap_cons, hwords, List.cons_append, row, row, hled, led_flatMap_words hts.2,
        ← List.append_assoc, ht]

/-- What stands before a token or begins it cannot follow a blank. -/
theorem follows_head?_led {ts : List (List Char)} (hne : ∀ t ∈ ts, t ≠ []) :
    (led gap ts).head?.any follows = false := by
  cases ts with
  | nil => rfl
  | cons t ts =>
    obtain ⟨c, t, rfl⟩ := List.exists_cons_of_ne_nil (hne t List.mem_cons_self)
    rw [led_cons, gap]
    split
    · rename_i hmark
      have hmark : c = ',' ∨ c = ';' := by simpa using hmark
      rcases hmark with rfl | rfl <;> rfl
    · rfl

/-- The parts of a settled text are settled if the second cannot follow a blank. -/
theorem isSettled_of_append {cs rest : List Char} (hrest : rest.head?.any follows = false)
    (h : isSettled (cs ++ rest) = true) : isSettled cs = true ∧ isSettled rest = true := by
  induction cs with
  | nil => exact ⟨rfl, h⟩
  | cons c cs ih =>
    rw [List.cons_append, isSettled, Bool.and_eq_true] at h
    obtain ⟨hcs, hsettled⟩ := ih h.2
    refine ⟨?_, hsettled⟩
    rw [isSettled, hcs, Bool.and_true]
    cases cs with
    | nil => simpa [hrest] using h.1
    | cons d cs => exact h.1

theorem keepsForm_of_isSettled_led {ts : List (List Char)} (hne : ∀ t ∈ ts, t ≠ [])
    (h : isSettled (led gap ts) = true) : ∀ t ∈ ts, keepsForm t = true := by
  induction ts with
  | nil => simp
  | cons t ts ih =>
    rw [List.forall_mem_cons] at hne
    obtain ⟨c, t, rfl⟩ := List.exists_cons_of_ne_nil hne.1
    rw [led_cons] at h
    have hc : Text.isBlank c = false ∧ isSettled (c :: t ++ led gap ts) = true := by
      rw [gap] at h
      split at h
      · rename_i hmark
        have hmark : c = ',' ∨ c = ';' := by simpa using hmark
        refine ⟨?_, h⟩
        rcases hmark with rfl | rfl <;> rfl
      · rw [List.singleton_append, isSettled, Bool.and_eq_true] at h
        have hfollows : follows c = true := by
          have hspace : Text.isBlank ' ' = true := by decide
          simpa [hspace] using h.1
        rw [follows, Bool.and_assoc, Bool.and_eq_true] at hfollows
        exact ⟨by simpa using hfollows.1, h.2⟩
    obtain ⟨hsettled, hrest⟩ := isSettled_of_append (follows_head?_led hne.2) hc.2
    refine List.forall_mem_cons.2 ⟨?_, ih hne.2 hrest⟩
    rw [keepsForm, hsettled, Bool.and_true]
    simp [hc.1]

/-- **Tokens stand in a row like their words** exactly when all of them keep their form. -/
theorem row_flatMap_words_iff {ts : List (List Char)} (hne : ∀ t ∈ ts, t ≠ []) :
    row gap (ts.flatMap Text.words) = row gap ts ↔ ∀ t ∈ ts, keepsForm t = true := by
  refine ⟨fun h => ?_, row_flatMap_words⟩
  cases ts with
  | nil => simp
  | cons t ts =>
    have hwords : ∀ w ∈ (t :: ts).flatMap Text.words, Text.IsWord w := by
      intro w hw
      obtain ⟨u, -, hw⟩ := List.mem_flatMap.1 hw
      exact Text.isWord_of_mem_words w hw
    rw [List.forall_mem_cons] at hne
    have hsome : (t :: ts).flatMap Text.words ≠ [] := by
      intro hnil
      rw [hnil] at h
      exact hne.1 (List.append_eq_nil_iff.1 h.symm).1
    have hkeeps := keepsForm_row hwords hsome
    rw [h, row, keepsForm, List.head?_append_of_ne_nil _ hne.1, Bool.and_eq_true] at hkeeps
    obtain ⟨ht, hts⟩ := isSettled_of_append (follows_head?_led hne.2) hkeeps.2
    refine List.forall_mem_cons.2 ⟨?_, keepsForm_of_isSettled_led hne.2 hts⟩
    rw [keepsForm, hkeeps.1, ht, Bool.and_true]

/-- What stands before a token that is not the first one. -/
def gapBefore (t : String) : String :=
  if t.toList.head? = some ',' ∨ t.toList.head? = some ';' then "" else " "

/-- Tokens one after the other, a space or nothing between them. -/
def inRow : List String → String
  | [] => ""
  | t :: ts => t ++ String.join (ts.map fun u => gapBefore u ++ u)

theorem toList_inRow (ts : List String) : (inRow ts).toList = row gap (ts.map String.toList) := by
  have hgap : ∀ t, (gapBefore t).toList = gap t.toList := by
    intro t
    unfold gapBefore gap
    split <;> rfl
  cases ts with
  | nil => rfl
  | cons t ts =>
    simp [inRow, row, led, String.toList_join, List.flatMap_map, hgap]

/-- The words of a text. -/
def wordsOf (s : String) : List String :=
  (Text.words s.toList).map String.ofList

/-- The text of tokens with a space after each of them. -/
def spelled (ts : List String) : String :=
  String.join (ts.map (· ++ " "))

theorem words_spelled (ts : List String) :
    Text.words (spelled ts).toList = (ts.map String.toList).flatMap Text.words := by
  rw [← Text.words_flatMap (show Text.isBlank ' ' = true by decide)]
  simp [spelled, String.toList_join, List.flatMap_map]

/-- **What formatting does to tokens.** The tokens of a text, each written with a space after it, come
back as their words. They come back as they are, in their order and with a space or nothing between
them, exactly when all of them keep their form. -/
theorem format_spelled (ts : List String) (hne : ∀ t ∈ ts, t ≠ "") :
    whitespace.format (spelled ts) = .ok (inRow (ts.flatMap wordsOf)) ∧
    (whitespace.format (spelled ts) = .ok (inRow ts) ↔
      ∀ t ∈ ts, keepsForm t.toList = true) := by
  have hformat : ∀ s, whitespace.format (spelled ts) = .ok s ↔
      row gap ((ts.map String.toList).flatMap Text.words) = s.toList := by
    intro s
    rw [← words_spelled, ← toList_tidy, String.toList_inj]
    exact ⟨Except.ok.inj, congrArg Except.ok⟩
  constructor
  · rw [hformat, toList_inRow]
    simp [wordsOf, List.flatMap_map, List.map_flatMap, Function.comp_def]
  · have hchars : ∀ t ∈ ts.map String.toList, t ≠ [] := by
      refine List.forall_mem_map.2 fun t ht => ?_
      simpa using hne t ht
    rw [hformat, toList_inRow, row_flatMap_words_iff hchars]
    exact List.forall_mem_map

/-- Tokens with blanks, commas and semicolons in them that keep their form. -/
def tokensOfCall : List String :=
  ["print", "(", "\"a b,c; d\"", ",", "né e", ")", ";"]

theorem format_tokensOfCall :
    (∀ t ∈ tokensOfCall, t ≠ "" ∧ keepsForm t.toList = true) ∧
      whitespace.format (spelled tokensOfCall) = .ok "print ( \"a b,c; d\", né e );" := by
  have htokens : ∀ t ∈ tokensOfCall, t ≠ "" ∧ keepsForm t.toList = true := by decide +kernel
  have hrow : inRow tokensOfCall = "print ( \"a b,c; d\", né e );" := by decide +kernel
  refine ⟨htokens, ?_⟩
  rw [← hrow]
  exact (format_spelled tokensOfCall fun t ht => (htokens t ht).1).2.2 fun t ht => (htokens t ht).2

/-- **A string literal is changed**: of two spaces in it, one is lost. -/
theorem format_stringLiteral :
    whitespace.format (spelled ["\"a  b\""]) = .ok "\"a b\"" ∧
      whitespace.format (spelled ["\"a  b\""]) ≠ .ok "\"a  b\"" := by
  decide +kernel

end Formatter

end SyntaxGraph
