import SyntaxGraph.Text.Blank

/-!
# The tokens of a text

The tokens of a text are its words without those that are a lone comma. A text spells tokens when it
contributes exactly these to any longer text that begins with it: its last word is closed by a blank,
so whatever follows starts a new one. Texts that spell something can be put one after the other.
-/

namespace SyntaxGraph.Text

/-- The words of some characters, less the lone commas. -/
def tokens (cs : List Char) : List String :=
  ((words cs).filter (· != [','])).map String.ofList

/-- A text that can be a token: it is not empty and has no blanks and no commas. -/
structure IsToken (s : String) : Prop where
  nonempty : s ≠ ""
  chars : ∀ ch ∈ s.toList, isBlank ch = false ∧ ch ≠ ','

theorem isToken_of_all {s : String} (hne : s ≠ "")
    (hall : s.toList.all (fun ch => !isBlank ch && ch != ',') = true) : IsToken s := by
  refine ⟨hne, fun ch hch => ?_⟩
  have hch := List.all_eq_true.1 hall ch hch
  simpa using hch

/-- Before any further text, the text adds the tokens `ts`. -/
def Spells (s : String) (ts : List String) : Prop :=
  ∀ rest, tokens (s.toList ++ rest) = ts ++ tokens rest

theorem Spells.tokens_eq {s : String} {ts : List String} (h : Spells s ts) :
    tokens s.toList = ts := by
  have hs := h []
  rwa [List.append_nil, show tokens [] = [] from rfl, List.append_nil] at hs

/-! ### Words -/

/-- A run of characters that are not blank is a word when a blank follows. -/
theorem words_append_blank {w : List Char} (hne : w ≠ []) (hw : ∀ ch ∈ w, isBlank ch = false)
    {b : Char} (hb : isBlank b = true) (rest : List Char) :
    words (w ++ b :: rest) = w :: words rest := by
  rw [words, wordsFrom_append [] w hw, wordsFrom, if_pos hb, keepWord]
  simp [hne, words]

theorem spells_token {s : String} (h : IsToken s) : Spells (s ++ " ") [s] := by
  intro rest
  have hne : s.toList ≠ [] := by simpa using h.nonempty
  have hcomma : s.toList ≠ [','] := by
    intro hs
    exact (h.chars ',' (by simp [hs])).2 rfl
  have hwords : words ((s ++ " ").toList ++ rest) = s.toList :: words rest := by
    rw [String.toList_append, List.append_assoc]
    exact words_append_blank hne (fun ch hch => (h.chars ch hch).1) (by decide) rest
  rw [tokens, hwords]
  simp [tokens, hcomma]

/-- A comma and a space are a word, but not a token. -/
theorem spells_comma : Spells ", " [] := by
  intro rest
  have hwords : words (", ".toList ++ rest) = [','] :: words rest := rfl
  rw [tokens, hwords]
  simp [tokens]

/-! ### Putting texts one after the other -/

theorem spells_empty : Spells "" [] := by
  intro rest
  rfl

theorem Spells.append {s s' : String} {ts ts' : List String} (h : Spells s ts) (h' : Spells s' ts') :
    Spells (s ++ s') (ts ++ ts') := by
  intro rest
  rw [String.toList_append, List.append_assoc, h, h', List.append_assoc]

theorem spells_join {α : Type} {f : α → String} {g : α → List String} {xs : List α}
    (h : ∀ x ∈ xs, Spells (f x) (g x)) : Spells (String.join (xs.map f)) (xs.flatMap g) := by
  induction xs with
  | nil => exact spells_empty
  | cons x xs ih =>
    rw [List.map_cons, String.join_cons, List.flatMap_cons]
    exact (h x List.mem_cons_self).append (ih fun y hy => h y (List.mem_cons_of_mem _ hy))

/-- What stands between the texts does not matter if it has no tokens. -/
theorem spells_intercalate {α : Type} {sep : String} (hsep : Spells sep []) {f : α → String}
    {g : α → List String} {xs : List α} (h : ∀ x ∈ xs, Spells (f x) (g x)) :
    Spells (sep.intercalate (xs.map f)) (xs.flatMap g) := by
  induction xs with
  | nil => exact spells_empty
  | cons x xs ih =>
    have hx := h x List.mem_cons_self
    have ih := ih fun y hy => h y (List.mem_cons_of_mem _ hy)
    cases xs with
    | nil => simpa using hx
    | cons y ys =>
      rw [List.map_cons, List.map_cons, String.intercalate_cons_cons, String.append_assoc,
        List.flatMap_cons, ← List.map_cons]
      exact hx.append (hsep.append ih)

/-- Tokens with spaces between them and one at the end. -/
theorem spells_spaced {ts : List String} (hne : ts ≠ []) (h : ∀ t ∈ ts, IsToken t) :
    Spells (" ".intercalate ts ++ " ") ts := by
  have hjoin : " ".intercalate ts ++ " " = String.join (ts.map (· ++ " ")) := by
    induction ts with
    | nil => exact absurd rfl hne
    | cons t ts ih =>
      cases ts with
      | nil => simp
      | cons u us =>
        have ih := ih (by simp) fun v hv => h v (List.mem_cons_of_mem _ hv)
        rw [String.intercalate_cons_cons, List.map_cons, String.join_cons, ← ih]
        simp only [String.append_assoc]
  rw [hjoin]
  simpa using spells_join (f := (· ++ " ")) (g := fun t => [t]) fun t ht => spells_token (h t ht)

end SyntaxGraph.Text
