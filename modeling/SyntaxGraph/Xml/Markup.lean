import SyntaxGraph.Text.Digits
import SyntaxGraph.Text.Search

/-!
# XML markup

A document is first cut into tags and runs of text. What is checked here is the form of names, tags,
attributes, comments, processing instructions, references and the declaration; how tags nest and
what prefixes mean is left to the reader. A document type declaration is refused.
-/

namespace SyntaxGraph.Xml

/-! ### Characters -/

/-- Whether a number lies in one of the intervals. -/
def inIntervals (table : List (Nat × Nat)) (n : Nat) : Bool :=
  table.any fun row => row.1 ≤ n && n ≤ row.2

/-- The characters that a document may hold. -/
def isXmlChar (c : Char) : Bool :=
  inIntervals [(0x9, 0xA), (0xD, 0xD), (0x20, 0xD7FF), (0xE000, 0xFFFD), (0x10000, 0x10FFFF)] c.toNat

/-- The characters that count as white space. -/
def isSpace (c : Char) : Bool :=
  c == ' ' || c == '\t' || c == '\n' || c == '\r'

/-- The characters that a name may start with. -/
def isNameStart (c : Char) : Bool :=
  inIntervals [(0x3A, 0x3A), (0x41, 0x5A), (0x5F, 0x5F), (0x61, 0x7A), (0xC0, 0xD6), (0xD8, 0xF6),
    (0xF8, 0x2FF), (0x370, 0x37D), (0x37F, 0x1FFF), (0x200C, 0x200D), (0x2070, 0x218F),
    (0x2C00, 0x2FEF), (0x3001, 0xD7FF), (0xF900, 0xFDCF), (0xFDF0, 0xFFFD),
    (0x10000, 0xEFFFF)] c.toNat

/-- The characters that a name may hold. -/
def isNameChar (c : Char) : Bool :=
  isNameStart c ||
    inIntervals [(0x2D, 0x2E), (0x30, 0x39), (0xB7, 0xB7), (0x300, 0x36F), (0x203F, 0x2040)] c.toNat

/-! ### Small scanners

A scanner takes characters from the front and answers what it found and what is left. -/

/-- What is left after an expected beginning. -/
def skip? (expected : List Char) (cs : List Char) : Option (List Char) :=
  if expected.isPrefixOf cs then some (cs.drop expected.length) else none

/-- The characters before the first occurrence of `mark`, and what is left after it. `before` holds
the characters so far in reverse. -/
def until? (mark : List Char) (before : List Char) : List Char → Option (List Char × List Char)
  | [] => none
  | c :: cs =>
    if mark.isPrefixOf (c :: cs) then some (before.reverse, (c :: cs).drop mark.length)
    else until? mark (c :: before) cs

/-- What is left after white space. -/
def skipSpaces (cs : List Char) : List Char :=
  cs.dropWhile isSpace

/-- A name with at most one colon, split at the colon. -/
structure QName where
  qualifier : String
  base : String
deriving DecidableEq, Repr, Inhabited

/-- The two parts of a name around its colon, if there is at most one. -/
def splitColon? (name : List Char) : Option (List Char × List Char) :=
  match name.span (· != ':') with
  | (base, []) => some ([], base)
  | (qualifier, _ :: base) => if base.contains ':' then none else some (qualifier, base)

/-- A qualified name. The part after the colon must not be empty, and both parts start like a
name. -/
def qname? (cs : List Char) : Option (QName × List Char) := do
  let (qualifier, base) ← splitColon? (cs.takeWhile isNameChar)
  if (qualifier.head?.map isNameStart).getD true && (base.head?.map isNameStart).getD false then
    return (⟨String.ofList qualifier, String.ofList base⟩, cs.dropWhile isNameChar)
  else none

/-- A plain name, in which a colon is a letter like any other. -/
def name? (cs : List Char) : Option (String × List Char) :=
  if (cs.head?.map isNameStart).getD false then
    some (String.ofList (cs.takeWhile isNameChar), cs.dropWhile isNameChar)
  else none

/-! ### References -/

/-- The character that a number refers to: the number has digits and fits 32 bits, a number of no
character stands for the replacement character, and the character may stand in a document. -/
def numbered? (base : Nat) (digits : List Char) : Option Char :=
  let n := Text.digitsValue base digits
  if digits.isEmpty || n ≥ UInt32.size then none
  else
    let c := if n.isValidChar then Char.ofNat n else '\uFFFD'
    if isXmlChar c then some c else none

/-- The character that a name refers to. -/
def entity? (name : String) : Option Char :=
  [("quot", '"'), ("amp", '&'), ("apos", '\''), ("lt", '<'), ("gt", '>')].lookup name

/-- A reference after its ampersand. -/
def reference? : List Char → Option (Char × List Char)
  | '#' :: 'x' :: cs => do
    let c ← numbered? 16 (cs.takeWhile (Text.isDigitOf 16))
    return (c, ← skip? [';'] (cs.dropWhile (Text.isDigitOf 16)))
  | '#' :: cs => do
    let c ← numbered? 10 (cs.takeWhile Char.isDigit)
    return (c, ← skip? [';'] (cs.dropWhile Char.isDigit))
  | cs => do
    let (name, cs) ← name? cs
    return (← entity? name, ← skip? [';'] cs)

/-- A character of a text, as it stands there or by a reference. -/
inductive Letter where
  | literal (c : Char)
  | referred (c : Char)
deriving DecidableEq, Repr

/-- Resolves the references of a text. `fuel` is at least the number of characters. -/
def letters? (fuel : Nat) (cs : List Char) : Option (List Letter) :=
  match fuel, cs with
  | _, [] => some []
  | 0, _ :: _ => none
  | fuel + 1, c :: cs =>
    if c = '&' then do
      let (d, rest) ← reference? cs
      return .referred d :: (← letters? fuel rest)
    else (letters? fuel cs).map (.literal c :: ·)

/-- The value of an attribute: white space that stands there literally becomes a space, the two
characters of a line break one space. -/
def attributeValue : List Letter → List Char
  | [] => []
  | .literal '\r' :: .literal '\n' :: ls => ' ' :: attributeValue ls
  | .literal c :: ls => (if isSpace c then ' ' else c) :: attributeValue ls
  | .referred c :: ls => c :: attributeValue ls

/-- The text of a run: line ends become line feeds. The characters so far stand in reverse in
`done`; a carriage return among them is settled when the next literal character comes, or at the
end of the run. -/
def runText (done : List Char) : List Letter → List Char
  | [] => done.reverse
  | .referred c :: ls => runText (c :: done) ls
  | .literal c :: ls =>
    let last : List Char := if c = '\r' ∧ ls.isEmpty then ['\n'] else [c]
    match done with
    | '\r' :: before =>
      if c = '\n' then runText ('\n' :: before) ls else runText (last ++ '\n' :: before) ls
    | _ => runText (last ++ done) ls

/-! ### Tags -/

/-- An attribute as written, with its value resolved. -/
structure Attribute where
  name : QName
  value : String
deriving DecidableEq, Repr

/-- A tag or a run of text. -/
inductive Markup where
  | opening (name : QName) (attributes : List Attribute) (isEmpty : Bool)
  | closing (name : QName)
  | text (raw : List Char)
  | literalText (raw : List Char)
deriving Repr

/-- An equals sign with white space around it. -/
def equals? (cs : List Char) : Option (List Char) :=
  (skip? ['='] (skipSpaces cs)).map skipSpaces

/-- An attribute value between quotes, as it stands. -/
def rawValue? : List Char → Option (List Char × List Char)
  | quote :: cs =>
    if quote = '"' ∨ quote = '\'' then do
      let stop c := c == quote || c == '<'
      let rest ← skip? [quote] (cs.dropWhile (!stop ·))
      return (cs.takeWhile (!stop ·), rest)
    else none
  | [] => none

/-- An attribute. -/
def attribute? (cs : List Char) : Option (Attribute × List Char) := do
  let (name, cs) ← qname? cs
  let (raw, cs) ← rawValue? (← equals? cs)
  let ls ← letters? raw.length raw
  return (⟨name, String.ofList (attributeValue ls)⟩, cs)

/-- The attributes of an opening tag and its end. `fuel` is at least the number of characters. -/
def attributes? (fuel : Nat) (done : List Attribute) (cs : List Char) :
    Option (List Attribute × Bool × List Char) :=
  match fuel with
  | 0 => none
  | fuel + 1 =>
    match skipSpaces cs with
    | '/' :: '>' :: rest => some (done.reverse, true, rest)
    | '>' :: rest => some (done.reverse, false, rest)
    | rest =>
      if (cs.head?.map isSpace).getD false then do
        let (a, rest) ← attribute? rest
        attributes? fuel (a :: done) rest
      else none

/-- What is left after a comment, of which the beginning is already read. Two hyphens must not stand
inside it, nor one before its end. -/
def comment? (cs : List Char) : Option (List Char) := do
  let (body, rest) ← until? "-->".toList [] cs
  if Text.occurs "--".toList body || body.getLast? == some '-' then none else return rest

/-- What is left after a processing instruction, of which the beginning is already read. -/
def instruction? (cs : List Char) : Option (List Char) := do
  if "xml ".toList.isPrefixOf cs then none
  else
    let (_, rest) ← name? cs
    let (_, rest) ← until? "?>".toList [] rest
    return rest

/-- The tags and texts of what is left of a document. `fuel` is more than the number of
characters. -/
def markup? (fuel : Nat) (cs : List Char) : Option (List Markup) :=
  match fuel with
  | 0 => none
  | fuel + 1 =>
    match cs with
    | [] => some []
    | '<' :: '!' :: '-' :: '-' :: rest => do markup? fuel (← comment? rest)
    | '<' :: '!' :: rest => do
      let (raw, rest) ← until? "]]>".toList [] (← skip? "[CDATA[".toList rest)
      return .literalText raw :: (← markup? fuel rest)
    | '<' :: '?' :: rest => do markup? fuel (← instruction? rest)
    | '<' :: '/' :: rest => do
      let (name, rest) ← qname? rest
      let rest ← skip? ['>'] (skipSpaces rest)
      return .closing name :: (← markup? fuel rest)
    | '<' :: rest => do
      let (name, rest) ← qname? rest
      let (attributes, isEmpty, rest) ← attributes? (rest.length + 1) [] rest
      return .opening name attributes isEmpty :: (← markup? fuel rest)
    | _ => do
      let raw := cs.takeWhile (· != '<')
      if Text.occurs "]]>".toList raw then none
      else return .text raw :: (← markup? fuel (cs.dropWhile (· != '<')))

/-! ### The declaration -/

/-- White space after an attribute of the declaration, unless its end follows. -/
def declarationSpaces? (cs : List Char) : Option (List Char) :=
  if (cs.head?.map isSpace).getD false then some (skipSpaces cs)
  else if cs.isEmpty || "?>".toList.isPrefixOf cs then some cs
  else none

/-- An attribute of the declaration that may be left out. -/
def declarationAttribute? (key : String) (cs : List Char) : Option (List Char) := do
  if key.toList.isPrefixOf cs then
    let (_, rest) ← qname? cs
    let (_, rest) ← rawValue? (← equals? rest)
    declarationSpaces? rest
  else return cs

/-- What is left after the declaration, if the document starts with one. -/
def declaration? (cs : List Char) : Option (List Char) := do
  if "<?xml ".toList.isPrefixOf cs then
    let cs ← declarationSpaces? (cs.drop 5)
    if !"version".toList.isPrefixOf cs then none
    else
      let cs ← declarationAttribute? "version" cs
      let cs ← declarationAttribute? "encoding" cs
      let cs ← declarationAttribute? "standalone" cs
      skip? "?>".toList (skipSpaces cs)
  else return cs

/-- The tags and texts of a document, which may start with a byte order mark and a declaration. -/
def documentMarkup? (cs : List Char) : Option (List Markup) := do
  let cs := if cs.head? == some '\uFEFF' then cs.drop 1 else cs
  if cs.all isXmlChar then
    let rest ← declaration? cs
    markup? (rest.length + 1) rest
  else none

end SyntaxGraph.Xml
