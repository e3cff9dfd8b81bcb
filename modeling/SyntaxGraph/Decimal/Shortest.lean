/-!
# Shortest decimals

The shortest decimal that reads back as a given double, and its text in positional notation. A
positive double is `m * 2 ^ q`; every real between the halfway points to its neighbours reads back
as it, the halfway points themselves when `m` is even. For one digit, then two, and so on up to
seventeen, the two neighbours of the double on the grid of such decimals are tried, and the nearer
one is taken, of two equally near ones the even one.
-/

namespace SyntaxGraph.Decimal

/-- The reals that read back as a double, in units of `1 / unit`. -/
structure Interval where
  low : Nat
  value : Nat
  high : Nat
  unit : Nat
  /-- The ends belong to the interval. -/
  closed : Bool

/-- The interval of `m * 2 ^ q`. Below a power of two the neighbour is only half as far away. -/
def Interval.ofBinary (m : Nat) (q : Int) (nearBelow : Bool) : Interval :=
  let scale := Nat.pow 2 q.toNat
  { low := (4 * m - if nearBelow then 1 else 2) * scale
    value := 4 * m * scale
    high := (4 * m + 2) * scale
    unit := 4 * Nat.pow 2 (-q).toNat
    closed := m % 2 == 0 }

/-- `n * 10 ^ p` in the same units as the interval, both sides multiplied so as to be whole: the
multiple of the decimal and the factor of the interval. -/
def Interval.onGrid (i : Interval) (p : Int) : Nat × Nat :=
  (i.unit * Nat.pow 10 p.toNat, Nat.pow 10 (-p).toNat)

/-- Whether `n * 10 ^ p` reads back as the double. -/
def Interval.holds (i : Interval) (p : Int) (n : Nat) : Bool :=
  let (step, factor) := i.onGrid p
  let x := n * step
  if i.closed then i.low * factor ≤ x && x ≤ i.high * factor
  else i.low * factor < x && x < i.high * factor

/-- The decimal `n * 10 ^ p` nearest to the double among its two neighbours on the grid of `p`, if
one of them reads back. -/
def Interval.pick? (i : Interval) (p : Int) : Option Nat :=
  let (step, factor) := i.onGrid p
  let v := i.value * factor
  let below := v / step
  let rest := v % step
  match i.holds p below, i.holds p (below + 1) with
  | true, true =>
    if 2 * rest < step || (2 * rest == step && below % 2 == 0) then some below
    else some (below + 1)
  | true, false => some below
  | false, true => some (below + 1)
  | false, false => none

/-- The exponent of the leading digit. No double reaches `10 ^ 310`, and none but zero is below
`10 ^ (-350)`. -/
def Interval.leading (i : Interval) : Int :=
  let isBelow (k : Nat) : Bool :=
    let (step, factor) := i.onGrid (Int.ofNat k - 349)
    decide (i.value * factor < step)
  Int.ofNat (((List.range 700).find? isBelow).getD 0) - 350

/-- The shortest decimal `n * 10 ^ p` that reads back. Seventeen digits are always enough. The
neighbour above may be the power of ten with one digit more, whose zero is not kept. -/
def Interval.shortest (i : Interval) : Nat × Int :=
  let lead := i.leading
  let withDigits (more : Nat) : Option (Nat × Int) :=
    let p := lead - Int.ofNat more
    (i.pick? p).map fun n => if n % 10 == 0 then (n / 10, p + 1) else (n, p)
  ((List.range 17).findSome? withDigits).getD (0, 0)

/-- A decimal in positional notation, without an exponent and without a fraction of zeros. -/
def positional (n : Nat) (p : Int) : List Char :=
  let digits := Nat.toDigits 10 n
  if 0 ≤ p then digits ++ List.replicate p.toNat '0'
  else
    let places := (-p).toNat
    let padded := List.replicate (places + 1 - digits.length) '0' ++ digits
    let whole := padded.length - places
    padded.take whole ++ '.' :: padded.drop whole

/-- The shortest text of a double in positional notation. -/
def text (x : Float) : String :=
  let bits := x.toBits.toNat
  let leadingBit := Nat.pow 2 52
  let exponent : Nat := bits / leadingBit % 2048
  let fraction := bits % leadingBit
  let sign := if bits / leadingBit / 2048 == 1 then "-" else ""
  if exponent == 2047 then (if fraction == 0 then sign ++ "inf" else "NaN")
  else if exponent == 0 && fraction == 0 then sign ++ "0"
  else
    let i :=
      if exponent == 0 then Interval.ofBinary fraction (-1074) false
      else Interval.ofBinary (fraction + leadingBit) (Int.ofNat exponent - 1075)
        (fraction == 0 && exponent != 1)
    let (n, p) := i.shortest
    sign ++ String.ofList (positional n p)

end SyntaxGraph.Decimal
