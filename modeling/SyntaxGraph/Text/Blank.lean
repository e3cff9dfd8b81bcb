/-!
# Blank characters

The characters with the property `White_Space`, and what is built on them: trimming a text and
splitting it into words.
-/

namespace SyntaxGraph.Text

/-- The 25 characters with the property `White_Space`. -/
def isBlank (c : Char) : Bool :=
  let n := c.toNat
  (9 ≤ n && n ≤ 13) || n == 32 || n == 0x85 || n == 0xA0 || n == 0x1680 ||
    (0x2000 ≤ n && n ≤ 0x200A) || n == 0x2028 || n == 0x2029 || n == 0x202F || n == 0x205F ||
    n == 0x3000

/-! ### Trimming -/

/-- The characters without the blanks at either end. -/
def trimChars (cs : List Char) : List Char :=
  ((cs.dropWhile isBlank).reverse.dropWhile isBlank).reverse

/-- The text without the blanks at either end. -/
def trim (s : String) : String :=
  String.ofList (trimChars s.toList)

/-! ### Words -/

/-- A finished word is kept unless it is empty. The letters of `word` stand in reverse. -/
def keepWord (word : List Char) (rest : List (List Char)) : List (List Char) :=
  if word.isEmpty then rest else word.reverse :: rest

/-- The maximal runs of characters that are not blank; `word` holds the run being read, reversed. -/
def wordsFrom (word : List Char) : List Char → List (List Char)
  | [] => keepWord word []
  | c :: cs => if isBlank c then keepWord word (wordsFrom [] cs) else wordsFrom (c :: word) cs

/-- The maximal runs of characters that are not blank, in order. -/
def words (cs : List Char) : List (List Char) :=
  wordsFrom [] cs

@[simp] theorem words_nil : words [] = [] := rfl

theorem wordsFrom_append (word : List Char) (as : List Char) (h : ∀ c ∈ as, isBlank c = false)
    (bs : List Char) : wordsFrom word (as ++ bs) = wordsFrom (as.reverse ++ word) bs := by
  induction as generalizing word with
  | nil => rfl
  | cons a as ih =>
    have ha : isBlank a = false := h a (by simp)
    simp only [List.cons_append, wordsFrom, ha, Bool.false_eq_true, if_false]
    rw [ih (a :: word) (fun c hc => h c (by simp [hc]))]
    simp

end SyntaxGraph.Text
