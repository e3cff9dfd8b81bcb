import SyntaxGraph.Json.Basic
import SyntaxGraph.Json.Token

/-!
# Reading JSON

The tokens of a text are read one by one. The reader knows the arrays and objects that wait for a
value, innermost first, and its place in the innermost open array or object. Everything is closed
with a `broken` leaf when a token does not fit or the tokens end too early.
-/

namespace SyntaxGraph.Json

/-- An array or an object that waits for a value; what it holds so far stands in reverse. -/
inductive Frame where
  | element (elements : List Json)
  | member (members : List (Option String × Json)) (key : Option String)

/-- Where the reader stands inside the waiting arrays and objects. -/
inductive Place where
  /-- A value must come. -/
  | value
  | arrayStart
  | arrayNext (elements : List Json)
  | objectStart
  | key (members : List (Option String × Json))
  | colon (members : List (Option String × Json)) (key : Option String)
  | objectNext (members : List (Option String × Json))
  /-- The value of the whole text is complete. -/
  | finished (value : Json)

/-- The state of the reader. -/
structure Reader where
  frames : List Frame
  place : Place

namespace Reader

/-- The reader at the start of a text. -/
def start : Reader :=
  ⟨[], .value⟩

/-- Gives a complete value to the innermost array or object that waits for one. -/
def fill (v : Json) : List Frame → Reader
  | [] => ⟨[], .finished v⟩
  | .element xs :: fs => ⟨fs, .arrayNext (v :: xs)⟩
  | .member ms k :: fs => ⟨fs, .objectNext ((k, v) :: ms)⟩

/-- Reads the first token of a value. -/
def begin? (fs : List Frame) : Token → Option Reader
  | .null => some (fill .null fs)
  | .bool b => some (fill (.bool b) fs)
  | .number literal => some (fill (.number literal) fs)
  | .text s => some (fill (.text s) fs)
  | .openArray => some ⟨fs, .arrayStart⟩
  | .openObject => some ⟨fs, .objectStart⟩
  | _ => none

/-- Reads one token, if it fits. -/
def step? (r : Reader) (t : Token) : Option Reader :=
  match r.place, t with
  | .value, t => begin? r.frames t
  | .arrayStart, .closeArray => some (fill (.array []) r.frames)
  | .arrayStart, t => begin? (.element [] :: r.frames) t
  | .arrayNext xs, .comma => some ⟨.element xs :: r.frames, .value⟩
  | .arrayNext xs, .closeArray => some (fill (.array xs.reverse) r.frames)
  | .objectStart, .closeObject => some (fill (.object []) r.frames)
  | .objectStart, .text k => some ⟨r.frames, .colon [] k⟩
  | .key ms, .text k => some ⟨r.frames, .colon ms k⟩
  | .colon ms k, .colon => some ⟨.member ms k :: r.frames, .value⟩
  | .objectNext ms, .comma => some ⟨r.frames, .key ms⟩
  | .objectNext ms, .closeObject => some (fill (.object ms.reverse) r.frames)
  | _, _ => none

/-- The value of the innermost array or object when the text breaks off there. -/
def brokenAt : Place → Json
  | .value => .broken
  | .arrayStart => .array [.broken]
  | .arrayNext xs => .array (.broken :: xs).reverse
  | .objectStart => .object [(none, .broken)]
  | .key ms => .object ((none, .broken) :: ms).reverse
  | .colon ms k => .object ((k, .broken) :: ms).reverse
  | .objectNext ms => .object ((none, .broken) :: ms).reverse
  | .finished v => v

/-- Closes the waiting arrays and objects around a broken value. -/
def abandon (v : Json) : List Frame → Json
  | [] => v
  | .element xs :: fs => abandon (.array (v :: xs).reverse) fs
  | .member ms k :: fs => abandon (.object ((k, v) :: ms).reverse) fs

end Reader

/-- What was read of a text: its value, and whether nothing but white space follows the value. -/
structure Reading where
  root : Json
  ended : Bool
deriving Repr

/-- Reads the tokens that are left. -/
def Reader.run (r : Reader) : List Token → Reading
  | [] =>
    match r.place with
    | .finished v => ⟨v, true⟩
    | p => ⟨abandon (brokenAt p) r.frames, false⟩
  | t :: ts =>
    match r.step? t with
    | some r' => r'.run ts
    | none => ⟨abandon (brokenAt r.place) r.frames, false⟩

/-- Reads a text. -/
def read (source : String) : Reading :=
  Reader.start.run (tokens source.toList)

end SyntaxGraph.Json
