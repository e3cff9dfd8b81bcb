import SyntaxGraph.Text.Digits
import SyntaxGraph.Text.Scan

/-!
# TOML numbers and dates

Between two digits of a number an underscore may stand. An integer fits 64 bits; a real number that
is too large for a double is refused, unless it is negative.
-/

namespace SyntaxGraph.Toml

open Text (Scan)

/-! ### Integers -/

/-- The digits of a base at the start of a text, without the underscores between them, and the
rest. -/
def splitDigits (base : Nat) : List Char → List Char × List Char
  | [] => ([], [])
  | c :: cs =>
    if Text.isDigitOf base c then
      let (digits, rest) := splitDigits base cs
      (c :: digits, rest)
    else if c == '_' && cs.head?.any (Text.isDigitOf base) then splitDigits base cs
    else ([], c :: cs)

/-- Reads digits of a base, at least one. -/
def digits (base : Nat) : Scan (List Char) := do
  let first ← Scan.one (Text.isDigitOf base)
  let (more, rest) := splitDigits base (← get)
  set rest
  return first :: more

/-- Reads a sign, if there is one, and says whether it is a minus. -/
def sign : Scan Bool := do
  if ← Scan.char? '-' then return true
  discard (Scan.char? '+')
  return false

/-- Reads the whole part of a decimal number, which has no zero before other digits. -/
def wholeDigits : Scan (List Char) := do
  if ← Scan.char? '0' then return ['0'] else digits 10

/-- An integer that fits 64 bits. -/
def fitting (n : Int) : Scan Int :=
  if (Int64.ofInt n).toInt == n then return n else failure

/-- Reads an integer in a base that is named by two characters before it. -/
def basedInteger (mark : String) (base : Nat) : Scan Int := do
  Scan.word mark
  fitting (Text.digitsValue base (← digits base))

/-- Reads an integer. -/
def integer : Scan Int :=
  basedInteger "0x" 16 <|> basedInteger "0o" 8 <|> basedInteger "0b" 2 <|> do
    let negative ← sign
    let n : Int := Text.digitsValue 10 (← wholeDigits)
    fitting (if negative then -n else n)

/-! ### Real numbers -/

/-- The double nearest to `n * 10 ^ exponent`, where `n` has at most `size` digits. Exponents out of
reach are settled without computing the power. -/
def nearest (n size : Nat) (exponent : Int) : Float :=
  if n == 0 || exponent + size < -400 then 0
  else if 400 < exponent then Float.ofScientific 1 false 400
  else Float.ofScientific n (exponent < 0) exponent.natAbs

/-- Reads a fraction: its digits. -/
def fraction : Scan (List Char) := do
  Scan.char '.'
  digits 10

/-- Reads an exponent. -/
def exponent : Scan Int := do
  discard (Scan.one fun c => c == 'e' || c == 'E')
  let negative ← sign
  let n : Int := Text.digitsValue 10 (← digits 10)
  return if negative then -n else n

/-- Reads a real number that has a fraction or an exponent. -/
def decimal : Scan Float := do
  let negative ← sign
  let whole ← wholeDigits
  let (places, scale) ←
    (do return ([], ← exponent)) <|> do
      let places ← fraction
      let scale ← exponent <|> return 0
      return (places, scale)
  let all := whole ++ places
  let x := nearest (Text.digitsValue 10 all) all.length (scale - places.length)
  if negative then return -x
  else if x.isInf then failure
  else return x

/-- Reads a real number that is infinite or no number at all. -/
def nonFinite : Scan Float := do
  let negative ← sign
  let x ← (do Scan.word "inf"; return 1.0 / 0.0) <|> (do Scan.word "nan"; return 0.0 / 0.0)
  return if negative then -x else x

/-- Reads a real number. -/
def real : Scan Float :=
  decimal <|> nonFinite

/-! ### Dates and times -/

/-- Reads a number of a fixed number of digits between two bounds. -/
def bounded (size low high : Nat) : Scan Nat := do
  let n := Text.digitsValue 10 (← Scan.exactly size Char.isDigit)
  if low ≤ n && n ≤ high then return n else failure

/-- A number with at least `size` digits. -/
def padded (size n : Nat) : List Char :=
  let ds := Nat.toDigits 10 n
  List.replicate (size - ds.length) '0' ++ ds

/-- The number of days of a month. -/
def monthDays (year month : Nat) : Nat :=
  if month == 2 then
    if year % 4 == 0 && (year % 100 != 0 || year % 400 == 0) then 29 else 28
  else if [4, 6, 9, 11].contains month then 30
  else 31

/-- Reads a date. -/
def fullDate : Scan (List Char) := do
  let year ← bounded 4 0 9999
  Scan.char '-'
  let month ← bounded 2 1 12
  Scan.char '-'
  let day ← bounded 2 1 (monthDays year month)
  return padded 4 year ++ '-' :: padded 2 month ++ '-' :: padded 2 day

/-- Reads the fraction of a second; what is smaller than a nanosecond is cut off, and zeros at the
end are not kept. -/
def secondFraction : Scan (List Char) := do
  Scan.char '.'
  let kept := (← Scan.run1 Char.isDigit).take 9
  let trimmed := (kept.reverse.dropWhile (· == '0')).reverse
  return if trimmed.isEmpty then [] else '.' :: trimmed

/-- Reads a time of day. -/
def timeOfDay : Scan (List Char) := do
  let hour ← bounded 2 0 23
  Scan.char ':'
  let minute ← bounded 2 0 59
  Scan.char ':'
  let second ← bounded 2 0 60
  let fraction ← secondFraction <|> return []
  return padded 2 hour ++ ':' :: padded 2 minute ++ ':' :: padded 2 second ++ fraction

/-- Reads the offset of a time. No offset at all has a plus sign. -/
def offset : Scan (List Char) :=
  (do discard (Scan.one fun c => c == 'Z' || c == 'z'); return ['Z']) <|> do
    let mark ← Scan.one fun c => c == '+' || c == '-'
    let hour ← bounded 2 0 23
    Scan.char ':'
    let minute ← bounded 2 0 59
    let mark := if hour == 0 && minute == 0 then '+' else mark
    return mark :: padded 2 hour ++ ':' :: padded 2 minute

/-- Reads a date, a time or both. Its normal form has a `T` between date and time. -/
def date : Scan String := do
  let dated : Scan (List Char) := do
    let day ← fullDate
    let timed : Scan (List Char) := do
      discard (Scan.one fun c => c == 'T' || c == 't' || c == ' ')
      let time ← timeOfDay
      let shift ← offset <|> return []
      return 'T' :: time ++ shift
    return day ++ (← timed <|> return [])
  return String.ofList (← dated <|> timeOfDay)

end SyntaxGraph.Toml
