import SyntaxGraph.CommandLine.Extras

/-!
# Invocations

What the arguments of the program ask for. A word names the command; what is not an option after it
are its operands. Options that hold for all commands may also stand before the word. An option is
given by name, `--schema FILE` or `--schema=FILE`, or by letter, `-s FILE`, `-sFILE` or `-s=FILE`,
and letters of options without a value can be joined. The value of an option does not start with a
dash. After `--` there are operands only. No option is given twice.
-/

namespace SyntaxGraph.CommandLine

/-! ### Commands and options -/

/-- The stages and forms that can be looked at. -/
inductive View where
  | treeJson
  | convertedOutline
  | graphOutline
  | graphJson
deriving DecidableEq, Repr

/-- The view of a name. -/
def View.ofName? : String → Option View
  | "tree-json" => some .treeJson
  | "converted-treeviz" => some .convertedOutline
  | "graph-treeviz" => some .graphOutline
  | "graph-json" => some .graphJson
  | _ => none

/-- What the program is asked to do. -/
inductive Command where
  /-- Converts a tree to a graph. -/
  | forward (input : String) (schema output : Option String)
  /-- Emits the text of a graph. -/
  | backward (input : String) (formatter output : Option String)
  /-- Converts a tree to a graph and emits its text. -/
  | roundtrip (input : String) (schema formatter output : Option String)
  /-- Shows a stage of a conversion. -/
  | inspect (input : String) (view : View) (schema : Option String)
  /-- Lists the templates of a schema. -/
  | schema (schema filter : Option String)
deriving DecidableEq, Repr

/-- The word of a command. -/
inductive Verb where
  | forward
  | backward
  | roundtrip
  | inspect
  | schema
deriving DecidableEq, Repr

/-- The command word that a text is. -/
def Verb.ofName? : String → Option Verb
  | "forward" => some .forward
  | "backward" => some .backward
  | "roundtrip" => some .roundtrip
  | "inspect" => some .inspect
  | "schema" => some .schema
  | _ => none

/-- The most operands that a command takes. -/
def Verb.operands : Verb → Nat
  | .inspect => 2
  | .schema => 0
  | _ => 1

/-- The options. -/
inductive Opt where
  | config
  | verbose
  | version
  | help
  | schema
  | formatter
  | output
  | filter
deriving DecidableEq, Repr

/-- The name of an option. -/
def Opt.name : Opt → String
  | .config => "config"
  | .verbose => "verbose"
  | .version => "version"
  | .help => "help"
  | .schema => "schema"
  | .formatter => "formatter"
  | .output => "output"
  | .filter => "filter"

/-- The letter of an option. -/
def Opt.letter? : Opt → Option Char
  | .verbose => some 'v'
  | .version => some 'V'
  | .help => some 'h'
  | .schema => some 's'
  | .formatter => some 'f'
  | .output => some 'o'
  | _ => none

/-- The options that have a value. -/
def Opt.takesValue : Opt → Bool
  | .verbose => false
  | .version => false
  | .help => false
  | _ => true

/-- The options that are understood before the word of a command, or after it. -/
def options : Option Verb → List Opt
  | none => [.config, .verbose, .help, .version]
  | some .forward => [.config, .verbose, .help, .schema, .output]
  | some .backward => [.config, .verbose, .help, .formatter, .output]
  | some .roundtrip => [.config, .verbose, .help, .schema, .formatter, .output]
  | some .inspect => [.config, .verbose, .help, .schema]
  | some .schema => [.config, .verbose, .help, .schema, .filter]

/-! ### Reading arguments -/

/-- What is wrong with the arguments. -/
inductive UsageError where
  | unknownOption (arg : String)
  | unknownCommand (word : String)
  | missingCommand
  | missingValue (o : Opt)
  | unexpectedValue (o : Opt)
  | repeatedOption (o : Opt)
  | missingInput
  | unexpectedOperand (arg : String)
  | unknownView (name : String)
deriving DecidableEq, Repr

/-- The message of an error. -/
def UsageError.message : UsageError → String
  | .unknownOption arg => "unexpected argument '" ++ arg ++ "'"
  | .unknownCommand word => "unrecognized subcommand '" ++ word ++ "'"
  | .missingCommand => "a subcommand is required"
  | .missingValue o => "a value is required for '--" ++ o.name ++ "'"
  | .unexpectedValue o => "'--" ++ o.name ++ "' takes no value"
  | .repeatedOption o => "'--" ++ o.name ++ "' cannot be used multiple times"
  | .missingInput => "an input file is required"
  | .unexpectedOperand arg => "unexpected argument '" ++ arg ++ "'"
  | .unknownView name => "invalid view '" ++ name ++ "'"

/-- Why reading the arguments stops before their end. -/
inductive Stop where
  | usage (e : UsageError)
  | version
  | help
deriving DecidableEq, Repr

/-- The arguments that were read so far. -/
structure Reading where
  verb : Option Verb := none
  /-- The options before the word of the command. -/
  outer : List (Opt × String) := []
  /-- The options after it, or before it as long as it was not read. -/
  options : List (Opt × String) := []
  operands : List String := []
  /-- An option whose value comes next. -/
  pending : Option Opt := none
  /-- No more options are read. -/
  onlyOperands : Bool := false
deriving DecidableEq, Repr

namespace Reading

/-- Adds an option with its value. -/
def record (r : Reading) (o : Opt) (value : String) : Except Stop Reading :=
  if o = .version then .error .version
  else if o = .help then .error .help
  else if r.options.any (·.1 == o) then .error (.usage (.repeatedOption o))
  else .ok { r with options := r.options ++ [(o, value)], pending := none }

/-- Reads an option given by name, with the value that is attached to it. -/
def readNamed (r : Reading) (name : String) (attached : Option String) : Except Stop Reading :=
  match (CommandLine.options r.verb).find? (·.name == name) with
  | none => .error (.usage (.unknownOption ("--" ++ name)))
  | some o =>
    match o.takesValue, attached with
    | true, some value => r.record o value
    | true, none => .ok { r with pending := some o }
    | false, none => r.record o ""
    | false, some _ => .error (.usage (.unexpectedValue o))

/-- Reads options given by letters. What follows the letter of an option that has a value is the
value. -/
def readLetters (r : Reading) : List Char → Except Stop Reading
  | [] => .ok r
  | c :: cs =>
    match (CommandLine.options r.verb).find? (·.letter? == some c) with
    | none => .error (.usage (.unknownOption (String.ofList ['-', c])))
    | some o =>
      if o.takesValue then
        match cs with
        | [] => .ok { r with pending := some o }
        | '=' :: value => r.record o (String.ofList value)
        | value => r.record o (String.ofList value)
      else do readLetters (← r.record o "") cs

/-- Reads the word of the command or an operand. -/
def readWord (r : Reading) (arg : String) : Except Stop Reading :=
  match r.verb with
  | some verb =>
    if r.operands.length < verb.operands then .ok { r with operands := r.operands ++ [arg] }
    else .error (.usage (.unexpectedOperand arg))
  | none =>
    if r.onlyOperands then .error (.usage (.unexpectedOperand arg))
    else
      match Verb.ofName? arg with
      | some verb => .ok { r with verb := some verb, outer := r.options, options := [] }
      | none => .error (if arg = "help" then .help else .usage (.unknownCommand arg))

/-- Reads an argument. -/
def step (r : Reading) (arg : String) : Except Stop Reading :=
  match r.pending with
  | some o =>
    if isDashed arg && arg != "-" then .error (.usage (.missingValue o)) else r.record o arg
  | none =>
    if r.onlyOperands then r.readWord arg
    else
      match arg.toList with
      | ['-', '-'] => .ok { r with onlyOperands := true }
      | '-' :: '-' :: name =>
        let attached := name.dropWhile (· != '=')
        r.readNamed (String.ofList (name.takeWhile (· != '=')))
          (if attached.isEmpty then none else some (String.ofList (attached.drop 1)))
      | '-' :: c :: cs => r.readLetters (c :: cs)
      | _ => r.readWord arg

/-- The value of an option; one after the word of the command counts more than one before it. -/
def value? (r : Reading) (o : Opt) : Option String :=
  (r.options.lookup o).or (r.outer.lookup o)

/-- The command that was read. -/
def command (r : Reading) : Except UsageError Command :=
  match r.pending, r.verb, r.operands with
  | some o, _, _ => .error (.missingValue o)
  | none, none, _ => .error .missingCommand
  | none, some .schema, _ => .ok (.schema (r.value? .schema) (r.value? .filter))
  | none, some _, [] => .error .missingInput
  | none, some .forward, input :: _ => .ok (.forward input (r.value? .schema) (r.value? .output))
  | none, some .backward, input :: _ =>
    .ok (.backward input (r.value? .formatter) (r.value? .output))
  | none, some .roundtrip, input :: _ =>
    .ok (.roundtrip input (r.value? .schema) (r.value? .formatter) (r.value? .output))
  | none, some .inspect, [input] => .ok (.inspect input .convertedOutline (r.value? .schema))
  | none, some .inspect, input :: name :: _ =>
    match View.ofName? name with
    | some view => .ok (.inspect input view (r.value? .schema))
    | none => .error (.unknownView name)

end Reading

/-- A command with what holds for all commands. -/
structure Invocation where
  command : Command
  /-- A configuration file that must be there. -/
  config : Option String
  /-- Everything is logged. -/
  verbose : Bool
  /-- Parameters for a view. -/
  extras : List (String × String)
deriving DecidableEq, Repr

/-- What the arguments ask for. -/
def Invocation.ofArguments (args : List String) : Except Stop Invocation := do
  let parts := split args
  let r ← parts.kept.foldlM Reading.step {}
  let command ← r.command.mapError .usage
  return {
    command
    config := r.value? .config
    verbose := (r.value? .verbose).isSome
    extras := parts.extras }

end SyntaxGraph.CommandLine
