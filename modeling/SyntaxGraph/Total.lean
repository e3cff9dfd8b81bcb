/-!
# Totals

Sums of natural numbers, for measures of the work that is left.
-/

namespace SyntaxGraph

/-- The sum of numbers. -/
def total : List Nat → Nat
  | [] => 0
  | n :: ns => n + total ns

@[simp] theorem total_nil : total [] = 0 := rfl

@[simp] theorem total_cons (n : Nat) (ns : List Nat) : total (n :: ns) = n + total ns := rfl

@[simp] theorem total_append (ms ns : List Nat) : total (ms ++ ns) = total ms + total ns := by
  induction ms with
  | nil => simp
  | cons m ms ih => simp [ih, Nat.add_assoc]

theorem length_flatMap (f : α → List β) (as : List α) :
    (as.flatMap f).length = total (as.map fun a => (f a).length) := by
  induction as with
  | nil => rfl
  | cons a as ih => rw [List.flatMap_cons, List.length_append, ih, List.map_cons, total_cons]

end SyntaxGraph
