import SyntaxGraph.Text.Lowercase.Table

/-!
# Lower case

Full lower-casing of a text. All characters but two are mapped one by one. A capital I with a dot
becomes an i and a combining dot; a capital sigma becomes the final form when a cased character
comes before it and none after it, characters that case looks past being skipped on both sides.
-/

namespace SyntaxGraph.Text

namespace Lowercase

/-- The lower-case form of a character whose form is one character. -/
def simple (c : Char) : Char :=
  let n := c.toNat
  match forms.find? fun row => row.1 ≤ n && n ≤ row.2.1 && (n - row.1) % row.2.2.1 == 0 with
  | some row => Char.ofNat (row.2.2.2 + (n - row.1))
  | none => c

/-- Whether the first character that case does not look past is cased. -/
def meetsCased (cs : List Char) : Bool :=
  match cs.dropWhile fun c => inIntervals ignorable c.toNat with
  | [] => false
  | c :: _ => inIntervals cased c.toNat

/-- The lower-case form of a capital sigma between `before`, read backwards, and `after`. -/
def sigma (before after : List Char) : Char :=
  if meetsCased before && !meetsCased after then 'ς' else 'σ'

/-- Lower-cases `cs`; `before` holds the characters already read, the nearest first, and `done` the
lower-case text in reverse. -/
def loop (before done : List Char) : List Char → List Char
  | [] => done.reverse
  | c :: cs =>
    if c = 'Σ' then loop (c :: before) (sigma before cs :: done) cs
    else if c = 'İ' then loop (c :: before) ('\u0307' :: 'i' :: done) cs
    else loop (c :: before) (simple c :: done) cs

end Lowercase

/-- The text in lower case. -/
def lowercase (s : String) : String :=
  String.ofList (Lowercase.loop [] [] s.toList)

end SyntaxGraph.Text
