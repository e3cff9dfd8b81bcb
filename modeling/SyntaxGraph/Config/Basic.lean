import SyntaxGraph.Config.Key
import SyntaxGraph.Toml.Reader

/-!
# Configuration

A configuration is read from layers on top of the defaults: files in order, a later one over an
earlier one, and then single values that are set by key. Entries of other names are passed over.
-/

namespace SyntaxGraph

/-- What can be configured. -/
structure Config where
  /-- The file of the schema, for commands that are not told one. -/
  schemaPath : Option String
  /-- Whether subtrees that the schema does not cover are reported. -/
  reportGaps : Bool
  /-- The formatter of emitted text. -/
  formatter : String
  logLevel : String
deriving DecidableEq, Repr

namespace Config

/-- Why there is no configuration. -/
inductive Error where
  | missingFile (path : String)
  | malformedFile (path : String)
  | malformedKey (key : String)
  | invalidValue (key : String)
deriving DecidableEq, Repr

/-- The message of an error. -/
def Error.message : Error → String
  | .missingFile path => "configuration file '" ++ path ++ "' not found"
  | .malformedFile path => "configuration file '" ++ path ++ "' is not TOML"
  | .malformedKey key => "'" ++ key ++ "' is not a key"
  | .invalidValue key => "'" ++ key ++ "' is missing or has an unsuitable value"

/-- A layer of settings. -/
inductive Layer where
  /-- A file and its text, if it exists. A file that is not required may be missing. -/
  | file (path : String) (text : Option String) (required : Bool)
  /-- A value set by key. It lies over all files. -/
  | value (key : String) (v : Setting)

/-- The settings below all layers. -/
def defaults : Setting :=
  .table [
    ("schema", .table []),
    ("convert", .table [
      ("forward", .table [("report_gaps", .bool true)]),
      ("backward", .table [("formatter", .text "whitespace")])]),
    ("log", .table [("level", .text "warn")])]

/-- Lays an entry of a file over settings. Its name is a key if it can be read as one. -/
def layEntry (below : Setting) (entry : String × Setting) : Except Error Setting :=
  match Key.ofText? entry.1 with
  | some key => (Key.write entry.2 key below).elim (.error (.malformedKey entry.1)) .ok
  | none => .ok (Setting.lay entry.1 entry.2 below)

/-- Lays a file over settings; values set by key are passed over. -/
def layFile (below : Setting) : Layer → Except Error Setting
  | .file path (some text) _ =>
    match Toml.read? text with
    | some entries => (Setting.ofTomlEntries entries).foldlM layEntry below
    | none => .error (.malformedFile path)
  | .file path none required => if required then .error (.missingFile path) else .ok below
  | .value .. => .ok below

/-- Lays a value set by key over settings; files are passed over. -/
def layValue (below : Setting) : Layer → Except Error Setting
  | .value key v =>
    match (Key.ofText? key).bind fun k => Key.write v k below with
    | some s => .ok s
    | none => .error (.malformedKey key)
  | .file .. => .ok below

/-- The settings of all layers. -/
def settings (layers : List Layer) : Except Error Setting := do
  layers.foldlM layValue (← layers.foldlM layFile defaults)

/-- The path of the schema, which may be left out of a table or unset. -/
def schemaPath? : Option Setting → Option (Option String)
  | none => some none
  | some (.array []) => none
  | some (.array (path :: _)) => optionalText? path
  | some (.table es) => (es.lookup "path").elim (some none) optionalText?
  | some _ => none
where
  /-- A text that may be unset. -/
  optionalText? : Setting → Option (Option String)
    | .unset => some none
    | v => v.toText?.map some

/-- The configuration that settings describe. -/
def ofSettings (s : Setting) : Except Error Config := do
  let orFail {α : Type} (key : String) (x : Option α) : Except Error α :=
    x.elim (.error (.invalidValue key)) .ok
  let convert ← orFail "convert" (s.member? "convert" 1)
  let forward ← orFail "convert.forward" (convert.member? "forward" 0)
  let backward ← orFail "convert.backward" (convert.member? "backward" 1)
  let log ← orFail "log" (s.member? "log" 2)
  return {
    schemaPath := ← orFail "schema" (schemaPath? (s.member? "schema" 0))
    reportGaps := ← orFail "convert.forward.report_gaps"
      ((forward.member? "report_gaps" 0).bind Setting.toBool?)
    formatter := ← orFail "convert.backward.formatter"
      ((backward.member? "formatter" 0).bind Setting.toText?)
    logLevel := ← orFail "log.level" ((log.member? "level" 0).bind Setting.toText?) }

/-- Reads the configuration from layers. -/
def load (layers : List Layer) : Except Error Config := do
  ofSettings (← settings layers)

/-- The formatter to use: the empty name and `none` stand for none. -/
def activeFormatter (c : Config) : Option String :=
  if c.formatter = "" ∨ c.formatter = "none" then none else some c.formatter

end Config

end SyntaxGraph
