/-!
# Number literals

The grammar of a JSON number: a sign, digits without a leading zero, a fraction and an exponent, of
which only the digits must be there. Two questions are asked of a literal: which natural number it
writes, and whether its magnitude fits a double.
-/

namespace SyntaxGraph.Json.Number

/-- The value of a run of decimal digits. -/
def digitsValue (ds : List Char) : Nat :=
  ds.foldl (fun n d => n * 10 + (d.toNat - '0'.toNat)) 0

/-- The parts of a number literal. -/
structure Parts where
  negative : Bool
  whole : List Char
  fraction : Option (List Char)
  /-- Whether the exponent is negative, and its digits. -/
  exponent : Option (Bool × List Char)
deriving DecidableEq, Repr

/-- The exponent at the start of `cs` and what follows it. -/
def splitExponent? : List Char → Option (Option (Bool × List Char) × List Char)
  | c :: cs =>
    if c = 'e' ∨ c = 'E' then
      let (negative, rest) := match cs with
        | '-' :: r => (true, r)
        | '+' :: r => (false, r)
        | r => (false, r)
      let digits := rest.takeWhile Char.isDigit
      if digits.isEmpty then none
      else some (some (negative, digits), rest.dropWhile Char.isDigit)
    else some (none, c :: cs)
  | [] => some (none, [])

/-- The fraction at the start of `cs` and what follows it. -/
def splitFraction? : List Char → Option (Option (List Char) × List Char)
  | '.' :: cs =>
    let digits := cs.takeWhile Char.isDigit
    if digits.isEmpty then none else some (some digits, cs.dropWhile Char.isDigit)
  | cs => some (none, cs)

/-- The parts of a literal, or `none` when `cs` is no number. -/
def parts? (cs : List Char) : Option Parts := do
  let (negative, cs) := match cs with
    | '-' :: r => (true, r)
    | r => (false, r)
  let whole := cs.takeWhile Char.isDigit
  if whole.isEmpty || (whole.head? == some '0' && whole.length != 1) then none
  else
    let (fraction, cs) ← splitFraction? (cs.dropWhile Char.isDigit)
    let (exponent, cs) ← splitExponent? cs
    if cs.isEmpty then some ⟨negative, whole, fraction, exponent⟩ else none

/-- The natural number that a literal writes with digits only. -/
def natural? (literal : String) : Option Nat :=
  match parts? literal.toList with
  | some ⟨false, whole, none, none⟩ => some (digitsValue whole)
  | _ => none

/-- The least magnitude that rounds beyond the largest double. -/
def doubleBound : Nat :=
  Nat.pow 2 1024 - Nat.pow 2 970

/-- Whether `significand * 10 ^ exponent` is below the bound, for a significand of at most `width`
digits. Exponents out of reach are settled without computing the power. -/
def belowBound (significand width : Nat) : Int → Bool
  | .ofNat e => significand == 0 || (e ≤ 400 && significand * Nat.pow 10 e < doubleBound)
  | .negSucc e => width ≤ e + 1 || significand < doubleBound * Nat.pow 10 (e + 1)

/-- The magnitude of a number fits a double. -/
def Parts.fitsDouble (p : Parts) : Bool :=
  let fraction := p.fraction.getD []
  let digits := p.whole ++ fraction
  let exponent : Int := match p.exponent with
    | none => 0
    | some (true, ds) => -(digitsValue ds : Int)
    | some (false, ds) => digitsValue ds
  belowBound (digitsValue digits) digits.length (exponent - fraction.length)

/-- The magnitude of the number that a literal writes fits a double. -/
def fitsDouble (literal : String) : Bool :=
  match parts? literal.toList with
  | some p => p.fitsDouble
  | none => false

end SyntaxGraph.Json.Number
