/-!
# Searching a text for a part
-/

namespace SyntaxGraph.Text

/-- Whether `part` stands somewhere in a text. -/
def occurs (part : List Char) : List Char → Bool
  | [] => part.isEmpty
  | c :: cs => part.isPrefixOf (c :: cs) || occurs part cs

theorem occurs_iff {part cs : List Char} : occurs part cs = true ↔ part <:+: cs := by
  induction cs with
  | nil => simp [occurs]
  | cons c cs ih => simp [occurs, ih, List.infix_cons_iff]

end SyntaxGraph.Text
