import SyntaxGraph.CommandLine.Invocation
import SyntaxGraph.CommandLine.LogFilter
import SyntaxGraph.Config.Basic
import SyntaxGraph.Graph.Json
import SyntaxGraph.Outline
import SyntaxGraph.Synchronizer

/-!
# Running commands

A command reads files, converts, and ends with a text for the standard output or for a file. Every
run starts with fresh ids. How files are read and written is up to the caller, so that a run can be
looked at without a file system.
-/

namespace SyntaxGraph.CommandLine

/-! ### Errors -/

/-- Why a command fails. -/
inductive CommandError where
  | config (e : Config.Error)
  | logLevel (level : String)
  | inputFile (path reason : String)
  | noSchema
  | schemaFile (path reason : String)
  | schema (path : String) (e : Schema.Error)
  | unknownFormatter (name : String)
  | conversion (e : SyncError)
  | graph (e : Graph.Error)
  | emission (e : SyncError)
  | view (e : Tree.ReadError)
  | outputFile (path reason : String)
deriving Repr

/-- The message of an error. -/
def CommandError.message : CommandError → String
  | .config e => "Failed to load configuration: " ++ e.message
  | .logLevel level => "Invalid log level '" ++ level ++ "': not a list of directives"
  | .inputFile path reason => "Error reading file '" ++ path ++ "': " ++ reason
  | .noSchema => "No schema given. Pass --schema <xml> or set schema.path in nodesync.toml"
  | .schemaFile path reason => "Error reading schema '" ++ path ++ "': " ++ reason
  | .schema path e => "Schema error in '" ++ path ++ "': " ++ e.message
  | .unknownFormatter name =>
    "Unknown formatter '" ++ name ++ "'. Available: " ++
      ", ".intercalate FormatterRegistry.builtIn.names
  | .conversion e => "Conversion error: " ++ e.message
  | .graph e => "Graph error: " ++ e.message
  | .emission e => "Emission error: " ++ e.message
  | .view e => "Execution error: Tree error: " ++ e.message
  | .outputFile path reason => "Error writing file '" ++ path ++ "': " ++ reason

/-! ### Files -/

/-- The files that a command works with. A file that cannot be read or written has a reason. -/
structure Files (m : Type → Type) where
  read : String → m (Except String String)
  write : String → String → m (Except String Unit)

variable {m : Type → Type} [Monad m]

/-- Goes on with a result or stops with its error. -/
def settle (wrap : ε → CommandError) (r : Except ε α) : ExceptT CommandError m α :=
  ExceptT.mk (pure (r.mapError wrap))

namespace Files

/-- The text of a configuration file, which is looked for under its own name and then with
`.toml` after it. -/
def settings (files : Files m) (path : String) : m (Option String) := do
  match ← files.read path with
  | .ok text => return some text
  | .error _ => return (← files.read (path ++ ".toml")).toOption

/-- The configuration: the defaults, then the file that is always looked for, then the one that is
asked for. -/
def config (files : Files m) (asked : Option String) : ExceptT CommandError m Config := do
  let standing := "nodesync.toml"
  let first := Config.Layer.file standing (← files.settings standing) false
  let layers ← match asked with
    | none => pure [first]
    | some path => do pure [first, .file path (← files.settings path) true]
  settle .config (Config.load layers)

/-- The text of the input. -/
def input (files : Files m) (path : String) : ExceptT CommandError m String := do
  settle (.inputFile path) (← files.read path)

/-- The catalog of the schema that is asked for, or else of the configured one. -/
def catalog (files : Files m) (asked : Option String) (c : Config) :
    ExceptT CommandError m Schema.Catalog := do
  match asked.or c.schemaPath with
  | none => throw .noSchema
  | some path =>
    let text ← settle (.schemaFile path) (← files.read path)
    return .ofDocument (← settle (.schema path) (Schema.Document.parse text))

end Files

/-! ### Commands -/

/-- The formatter to use, which must be known: the one that is asked for, `none` standing for none,
or else the configured one. -/
def formatterFor (asked : Option String) (c : Config) : Except CommandError (Option String) :=
  let chosen := match asked with
    | some name => if name = "none" then none else some name
    | none => c.activeFormatter
  match chosen with
  | none => .ok none
  | some name =>
    if FormatterRegistry.builtIn.has name then .ok (some name) else .error (.unknownFormatter name)

/-- The line about subtrees that the schema does not cover, if there are any and they are to be
reported. -/
def gaps (c : Config) (r : Conversion.Report) : String :=
  if !c.reportGaps || r.isComplete then ""
  else
    "Skipped " ++ toString r.skipped.length ++ " subtree(s) the schema does not cover: " ++
      ", ".intercalate r.skipped ++ "\n"

/-- What a command has to show. -/
structure Product where
  text : String
  /-- What is said aside. -/
  notes : String := ""
  /-- The file for the text, if it is not for the standard output. -/
  target : Option String := none

/-- A view of the text of a tree. The tree itself is shown without converting it. -/
def look (view : View) (extras : Outline.Parameters) (catalog : Schema.Catalog) (source : String)
    (c : Config) : Except CommandError Product := do
  let tree ← (Tree.parse source).mapError .view
  if view = .treeJson then return { text := tree.toJson.pretty }
  let (outcome, _) := Conversion.convert catalog tree {}
  let graph := Graph.ofRoot outcome.root
  let text := match view with
    | .graphOutline => Outline.ofGraph extras graph
    | .graphJson => graph.text
    | _ => (outcome.root.map (Outline.ofConverted extras)).getD ""
  return { text, notes := gaps c outcome.report }

/-- The graph of the text of a tree. -/
def graphOf (catalog : Schema.Catalog) (source : String) : Except CommandError GraphSync :=
  let s : Synchronizer := { catalog := .ofCatalog catalog }
  (s.toGraph source {}).1.mapError .conversion

/-- The text of a graph. -/
def textOf (formatter : Option String) (graph : Graph) : Except CommandError String :=
  let s : Synchronizer := { catalog := .ofCatalog (.ofDocument {}), formatter }
  (s.toCode graph).mapError .emission

/-- Carries a command out, up to handing out its text. -/
def execute (files : Files m) (c : Config) (extras : Outline.Parameters) :
    Command → ExceptT CommandError m Product
  | .forward input schema output => do
    let source ← files.input input
    let catalog ← files.catalog schema c
    settle id do
      discard (formatterFor none c)
      let synced ← graphOf catalog source
      return { text := synced.graph.text ++ "\n", notes := gaps c synced.report, target := output }
  | .backward input asked output => do
    let source ← files.input input
    settle id do
      let graph ← (Graph.load source {}).1.mapError .graph
      let text ← textOf (← formatterFor asked c) graph
      return { text := text ++ "\n", target := output }
  | .roundtrip input schema asked output => do
    let source ← files.input input
    let catalog ← files.catalog schema c
    settle id do
      let formatter ← formatterFor asked c
      let synced ← graphOf catalog source
      let text ← textOf formatter synced.graph
      return { text := text ++ "\n", notes := gaps c synced.report, target := output }
  | .inspect input view schema => do
    let source ← files.input input
    let catalog ← files.catalog schema c
    settle id (look view extras catalog source c)
  | .schema schema filter => do
    let catalog ← files.catalog schema c
    let names := filter.elim catalog.names catalog.filterNames
    return { text := String.join (names.map (· ++ "\n")) }

/-- Carries an invocation out, up to handing out its text: first the configuration and the log
level, which does not matter when everything is logged, then the command. -/
def perform (files : Files m) (i : Invocation) : ExceptT CommandError m Product := do
  let c ← files.config i.config
  if !i.verbose && !LogFilter.isFilter c.logLevel then throw (.logLevel c.logLevel)
  execute files c i.extras i.command

/-! ### Runs -/

/-- How a run ends. -/
structure Outcome where
  exit : UInt32 := 0
  stdout : String := ""
  stderr : String := ""
deriving DecidableEq, Repr

/-- The outcome of an error, after what was said aside. -/
def Outcome.ofError (e : CommandError) (notes : String) : Outcome :=
  { exit := 1, stderr := notes ++ e.message ++ "\n" }

/-- Hands a text out. -/
def deliver (files : Files m) (p : Product) : m Outcome := do
  match p.target with
  | none => return { stdout := p.text, stderr := p.notes }
  | some path =>
    match ← files.write path p.text with
    | .ok () => return { stderr := p.notes }
    | .error reason => return .ofError (.outputFile path reason) p.notes

/-- How the program is called. -/
def usage : String :=
  "Usage: nodesync [--config PATH] [-v] COMMAND\n\n" ++
  "  forward TREE.json [-s XML] [-o FILE]\n" ++
  "  backward GRAPH.json [-f NAME] [-o FILE]\n" ++
  "  roundtrip TREE.json [-s XML] [-f NAME] [-o FILE]\n" ++
  "  inspect TREE.json [VIEW] [-s XML] [--extra-KEY [VALUE]]\n" ++
  "  schema [-s XML] [--filter TEXT]\n"

/-- Runs the program. -/
def run (files : Files m) (args : List String) : m Outcome := do
  match Invocation.ofArguments args with
  | .error .version => return { stdout := "nodesync 0.1.0\n" }
  | .error .help => return { stdout := usage }
  | .error (.usage e) => return { exit := 2, stderr := "error: " ++ e.message ++ "\n\n" ++ usage }
  | .ok i =>
    match ← (perform files i).run with
    | .error e => return .ofError e ""
    | .ok p => deliver files p

end SyntaxGraph.CommandLine
