import SyntaxGraph.Json.Number
import SyntaxGraph.Text.Digits

/-!
# JSON tokens

A JSON text is first cut into tokens. The list of tokens of a text that is not well-formed ends with
the token `bad`, so that the tokens before the fault are not lost.
-/

namespace SyntaxGraph.Json

/-- The smallest meaningful parts of a JSON text. -/
inductive Token where
  | openArray
  | closeArray
  | openObject
  | closeObject
  | comma
  | colon
  | null
  | bool (b : Bool)
  | number (literal : String)
  | text (s : Option String)
  | bad
deriving DecidableEq, Repr, Inhabited

/-! ### String literals -/

/-- A part of a string literal: a character, or one half of a surrogate pair. -/
inductive Piece where
  | char (c : Char)
  | high (n : Nat)
  | low (n : Nat)
deriving DecidableEq, Repr

/-- The part written by the number of a 16-bit unit. -/
def Piece.ofUnit (n : Nat) : Piece :=
  if 0xD800 ≤ n ∧ n < 0xDC00 then .high n
  else if 0xDC00 ≤ n ∧ n < 0xE000 then .low n
  else .char (Char.ofNat n)

/-- The text of a string literal, in which a high half must be followed by a low half. -/
def assemble : List Piece → Option (List Char)
  | [] => some []
  | .char c :: ps => (assemble ps).map (c :: ·)
  | .high h :: .low l :: ps =>
    (assemble ps).map (Char.ofNat (0x10000 + (h - 0xD800) * 0x400 + (l - 0xDC00)) :: ·)
  | .high _ :: _ => none
  | .low _ :: _ => none

/-- The 16-bit unit written by four hexadecimal digits. -/
def unit? (a b c d : Char) : Option Nat :=
  if [a, b, c, d].all (Text.isDigitOf 16) then some (Text.digitsValue 16 [a, b, c, d]) else none

/-- The character that a backslash and a letter stand for. -/
def escape? (c : Char) : Option Char :=
  if c = '"' then some '"'
  else if c = '\\' then some '\\'
  else if c = '/' then some '/'
  else if c = 'b' then some '\x08'
  else if c = 'f' then some '\x0c'
  else if c = 'n' then some '\n'
  else if c = 'r' then some '\r'
  else if c = 't' then some '\t'
  else none

/-! ### The scanner -/

/-- The characters that a number is made of. -/
def isNumberChar (c : Char) : Bool :=
  c.isDigit || c == '-' || c == '+' || c == '.' || c == 'e' || c == 'E'

/-- Adds the token of a run of number characters, which stand in reverse, if there is one. -/
def closeNumber (digits : List Char) (done : List Token) : List Token :=
  if digits.isEmpty then done
  else
    let literal := digits.reverse
    (if (Number.parts? literal).isSome then .number (String.ofList literal) else .bad) :: done

/-- The tokens, in order, of a text that breaks off after `done`. -/
def breakOff (done : List Token) : List Token :=
  (.bad :: done).reverse

mutual

/-- Scans between string literals. `done` holds the tokens so far and `digits` the number being
read, both in reverse. -/
def scan (done : List Token) (digits : List Char) : List Char → List Token
  | [] => (closeNumber digits done).reverse
  | c :: cs =>
    if isNumberChar c then scan done (c :: digits) cs
    else if c = ' ' ∨ c = '\t' ∨ c = '\n' ∨ c = '\r' then scan (closeNumber digits done) [] cs
    else if c = '[' then scan (.openArray :: closeNumber digits done) [] cs
    else if c = ']' then scan (.closeArray :: closeNumber digits done) [] cs
    else if c = '{' then scan (.openObject :: closeNumber digits done) [] cs
    else if c = '}' then scan (.closeObject :: closeNumber digits done) [] cs
    else if c = ',' then scan (.comma :: closeNumber digits done) [] cs
    else if c = ':' then scan (.colon :: closeNumber digits done) [] cs
    else if c = '"' then scanText (closeNumber digits done) [] cs
    else if c = 'n' then
      match cs with
      | 'u' :: 'l' :: 'l' :: r => scan (.null :: closeNumber digits done) [] r
      | _ => breakOff (closeNumber digits done)
    else if c = 't' then
      match cs with
      | 'r' :: 'u' :: 'e' :: r => scan (.bool true :: closeNumber digits done) [] r
      | _ => breakOff (closeNumber digits done)
    else if c = 'f' then
      match cs with
      | 'a' :: 'l' :: 's' :: 'e' :: r => scan (.bool false :: closeNumber digits done) [] r
      | _ => breakOff (closeNumber digits done)
    else breakOff (closeNumber digits done)

/-- Scans inside a string literal, whose parts so far stand in reverse in `pieces`. -/
def scanText (done : List Token) (pieces : List Piece) : List Char → List Token
  | [] => breakOff done
  | c :: cs =>
    if c = '"' then scan (.text ((assemble pieces.reverse).map String.ofList) :: done) [] cs
    else if c = '\\' then
      match cs with
      | 'u' :: h₁ :: h₂ :: h₃ :: h₄ :: r =>
        match unit? h₁ h₂ h₃ h₄ with
        | some n => scanText done (.ofUnit n :: pieces) r
        | none => breakOff done
      | e :: r =>
        match escape? e with
        | some d => scanText done (.char d :: pieces) r
        | none => breakOff done
      | [] => breakOff done
    else if c < ' ' then breakOff done
    else scanText done (.char c :: pieces) cs

end

/-- The tokens of a text. -/
def tokens (cs : List Char) : List Token :=
  scan [] [] cs

end SyntaxGraph.Json
