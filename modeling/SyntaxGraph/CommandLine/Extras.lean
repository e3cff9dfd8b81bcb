import SyntaxGraph.Table

/-!
# Extra parameters

An argument `--extra-key` is a parameter for a view. The argument after it is its value, unless it
starts with a dash; a parameter without a value has the value `true`. All other arguments are kept.
-/

namespace SyntaxGraph.CommandLine

/-- A part of the arguments. -/
inductive Piece where
  /-- An argument that has nothing to do with extra parameters. -/
  | kept (arg : String)
  /-- An extra parameter and the argument that is its value. -/
  | extra (key : String) (value : Option String)
deriving DecidableEq, Repr

/-- What an extra parameter starts with. -/
def extraMark : List Char := "--extra-".toList

/-- The key of an extra parameter. -/
def extraKey? (arg : String) : Option String :=
  if extraMark.isPrefixOf arg.toList then some (String.ofList (arg.toList.drop extraMark.length))
  else none

/-- An argument that starts with a dash. -/
def isDashed (arg : String) : Bool :=
  arg.toList.head? == some '-'

/-- Cuts arguments into parts. -/
def pieces : List String → List Piece
  | [] => []
  | [arg] =>
    match extraKey? arg with
    | some key => [.extra key none]
    | none => [.kept arg]
  | arg :: next :: rest =>
    match extraKey? arg with
    | some key =>
      if isDashed next then .extra key none :: pieces (next :: rest)
      else .extra key (some next) :: pieces rest
    | none => .kept arg :: pieces (next :: rest)

/-- The argument of a part that is kept. -/
def Piece.kept? : Piece → Option String
  | .kept arg => some arg
  | .extra .. => none

/-- The key and the value of an extra parameter. -/
def Piece.parameter? : Piece → Option (String × String)
  | .kept _ => none
  | .extra key value => some (key, value.getD "true")

/-- Arguments without the extra parameters, and the parameters. -/
structure Split where
  kept : List String
  /-- The parameters by key. The last one of a key counts. -/
  extras : List (String × String)
deriving DecidableEq, Repr

/-- Splits the extra parameters off. -/
def split (args : List String) : Split where
  kept := (pieces args).filterMap Piece.kept?
  extras := ((pieces args).filterMap Piece.parameter?).foldl (fun t p => Table.assign p.1 p.2 t) []

example :
    split ["inspect", "tree.json", "--extra-depth", "5", "graph-treeviz", "--extra-show-ids"] =
      ⟨["inspect", "tree.json", "graph-treeviz"], [("depth", "5"), ("show-ids", "true")]⟩ := by
  decide +kernel

end SyntaxGraph.CommandLine
