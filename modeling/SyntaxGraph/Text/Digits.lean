/-!
# Digits

Digits of bases up to sixteen, with letters of either case.
-/

namespace SyntaxGraph.Text

/-- The value of a digit in a base. -/
def digitValue? (base : Nat) (c : Char) : Option Nat :=
  let value :=
    if '0' ≤ c ∧ c ≤ '9' then some (c.toNat - '0'.toNat)
    else if 'a' ≤ c ∧ c ≤ 'f' then some (c.toNat - 'a'.toNat + 10)
    else if 'A' ≤ c ∧ c ≤ 'F' then some (c.toNat - 'A'.toNat + 10)
    else none
  value.filter (· < base)

/-- A digit of a base. -/
def isDigitOf (base : Nat) (c : Char) : Bool :=
  (digitValue? base c).isSome

/-- The number that digits write, the most significant one first. -/
def digitsValue (base : Nat) (digits : List Char) : Nat :=
  digits.foldl (fun n d => n * base + (digitValue? base d).getD 0) 0

example : digitsValue 16 "fF0".toList = 4080 := by decide
example : isDigitOf 8 '8' = false := by decide

end SyntaxGraph.Text
