/-!
# TOML values
-/

namespace SyntaxGraph.Toml

/-- A value of a TOML document. -/
inductive Value where
  | text (s : String)
  | integer (n : Int)
  | real (x : Float)
  | bool (b : Bool)
  /-- A date, a time or both, in its normal form. -/
  | date (s : String)
  | array (items : List Value)
  | table (entries : List (String × Value))
deriving Repr, Inhabited

end SyntaxGraph.Toml
