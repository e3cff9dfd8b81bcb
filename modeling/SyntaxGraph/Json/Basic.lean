import SyntaxGraph.Json.Number

/-!
# JSON values

The value that a JSON text denotes. A text need not be well-formed to be read: where it stops being
so, the value holds a `broken` leaf, which is then the last element or member of everything around
it. A decoder that goes through a value from left to right therefore meets whatever the text held
before its fault, and fails when it comes to the fault itself.

A string literal whose escapes hold half of a surrogate pair is well-formed but denotes no text;
it appears as `none`.
-/

namespace SyntaxGraph

/-- The value of a JSON text. -/
inductive Json where
  | null
  | bool (b : Bool)
  | number (literal : String)
  | text (s : Option String)
  | array (elements : List Json)
  | object (members : List (Option String × Json))
  /-- The text is not well-formed from here on. -/
  | broken
deriving Repr, Inhabited

namespace Json

/-- A string literal with the given text. -/
def ofString (s : String) : Json :=
  .text (some s)

/-- A natural number. -/
def ofNat (n : Nat) : Json :=
  .number (String.ofList (Nat.toDigits 10 n))

/-- An object with the given members. -/
def ofMembers (members : List (String × Json)) : Json :=
  .object (members.map fun m => (some m.1, m.2))

/-! ### Values that may be passed over -/

mutual

/-- The text of the value was well-formed. -/
def isWhole : Json → Bool
  | .array xs => allWhole xs
  | .object ms => membersWhole ms
  | .broken => false
  | _ => true

/-- The texts of all elements were well-formed. -/
def allWhole : List Json → Bool
  | [] => true
  | x :: xs => x.isWhole && allWhole xs

/-- The texts of all members were well-formed. -/
def membersWhole : List (Option String × Json) → Bool
  | [] => true
  | (_, x) :: ms => x.isWhole && membersWhole ms

end

/-! ### Values that can be held -/

mutual

/-- The value can be held in memory under the limits on nesting and numbers: it opens at most `room`
arrays and objects inside one another, all its strings denote texts, and its numbers fit a
double. -/
def isHeld (room : Nat) : Json → Bool
  | .null => true
  | .bool _ => true
  | .number literal => Number.fitsDouble literal
  | .text s => s.isSome
  | .array xs => room != 0 && allHeld (room - 1) xs
  | .object ms => room != 0 && membersHeld (room - 1) ms
  | .broken => false

/-- All elements can be held. -/
def allHeld (room : Nat) : List Json → Bool
  | [] => true
  | x :: xs => x.isHeld room && allHeld room xs

/-- All members can be held. -/
def membersHeld (room : Nat) : List (Option String × Json) → Bool
  | [] => true
  | (k, x) :: ms => k.isSome && x.isHeld room && membersHeld room ms

end

/-! ### Reading plain values -/

/-- The text of a string literal. -/
def toText? : Json → Option String
  | .text s => s
  | _ => none

/-- A truth value. -/
def toBool? : Json → Option Bool
  | .bool b => some b
  | _ => none

/-- A natural number below `bound`, written as digits only. -/
def toNatBelow? (bound : Nat) : Json → Option Nat
  | .number literal => (Number.natural? literal).filter (· < bound)
  | _ => none

/-- What may be `null`. -/
def toOption? (decode : Json → Option α) : Json → Option (Option α)
  | .null => some none
  | j => (decode j).map some

/-- The elements of an array, each decoded. -/
def toList? (decode : Json → Option α) : Json → Option (List α)
  | .array xs => xs.mapM decode
  | _ => none

/-! ### Records -/

/-- Whether a member of a record may stand among those read before: a member of the record must be
the first of its name, and any other member only has to be well-formed. -/
def fitsRecord (names : List String) (before : List String) (name : String) (value : Json) : Bool :=
  if names.contains name then !before.contains name else value.isWhole

/-- The members of a record as a table; `before` holds the names met so far. -/
def recordMembers? (names : List String) (before : List String) :
    List (Option String × Json) → Option (List (String × Json))
  | [] => some []
  | (none, _) :: _ => none
  | (some name, value) :: ms =>
    if fitsRecord names before name value then
      (recordMembers? names (name :: before) ms).map ((name, value) :: ·)
    else none

/-- A record with members of the given names: an object, in which other members are passed over and
no name of the record is repeated, or an array of the values in the order of the names, of which
the last ones may be missing. The answer has one entry for each name. -/
def record? (names : List String) : Json → Option (List (Option Json))
  | .object ms => (recordMembers? names [] ms).map fun table => names.map fun name => table.lookup name
  | .array xs =>
    if xs.length ≤ names.length then
      some (xs.map some ++ List.replicate (names.length - xs.length) none)
    else none
  | _ => none

/-- A member that must be there. -/
def required? (decode : Json → Option α) (member : Option Json) : Option α :=
  member.bind decode

/-- A member that has a default. -/
def orElse? (default : α) (decode : Json → Option α) : Option Json → Option α
  | none => some default
  | some j => decode j

end Json

end SyntaxGraph
