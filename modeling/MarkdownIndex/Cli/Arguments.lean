import MarkdownIndex.Decimal.Integer

/-!
# Arguments: what the command line asks for

Arguments are read from left to right. A word selects a command; options may stand before and after
it, and two dashes end them. The first argument that cannot be read decides what is told.

* `Action`, `Invocation` — what to do, and under which configuration.
* `UsageError` — why there is nothing to do.
* `Asked` — an invocation, the version, a help text, or an error.
* `Level`, `Draft` — where in the command line the reader is, and what it has read.
* `Asked.ofArguments` — all of it.
-/

namespace MarkdownIndex.Cli

/-! ## Invocations -/

/-- What to do. -/
inductive Action where
  /-- ingest one file, or all that count -/
  | process (file : Option String)
  /-- ingest all files and then those that change -/
  | watch
  /-- search -/
  | search (query mode : String) (limit : Option Int)
  /-- run the search service -/
  | serveApi
  /-- run the embedding service -/
  | serveEmbeddings
  /-- report on everything that ingestion needs -/
  | health
  /-- tell what is indexed -/
  | stats
  /-- show the chunks of a file -/
  | chunk (file : String)
  /-- fetch the remote notes -/
  | fetch
deriving DecidableEq, Repr

/-- What to do, and under which configuration. -/
structure Invocation where
  /-- the configuration file, if one is named -/
  config : Option String
  /-- what to do -/
  action : Action
deriving DecidableEq, Repr

/-- Why there is nothing to do. -/
inductive UsageError where
  /-- a command is missing -/
  | missingCommand
  /-- there is no such command -/
  | unknownCommand (name : String)
  /-- there is no such option -/
  | unknownOption (name : String)
  /-- an option has no value -/
  | missingValue (name : String)
  /-- an option has a value and takes none -/
  | unwantedValue (name : String)
  /-- an option comes twice -/
  | repeatedOption (name : String)
  /-- the value of an option or an argument cannot be read -/
  | badValue (name value : String)
  /-- an argument is missing -/
  | missingArgument (name : String)
  /-- there is an argument too many -/
  | surplusArgument (value : String)
deriving DecidableEq, Repr

/-- The wording of an error. -/
def UsageError.message : UsageError → String
  | .missingCommand => "a command is required"
  | .unknownCommand name => "unrecognized subcommand '" ++ name ++ "'"
  | .unknownOption name => "unexpected argument '" ++ name ++ "' found"
  | .missingValue name => "a value is required for '" ++ name ++ "' but none was supplied"
  | .unwantedValue name => "unexpected value for '" ++ name ++ "' found; no more were expected"
  | .repeatedOption name => "the argument '" ++ name ++ "' cannot be used multiple times"
  | .badValue name value => "invalid value '" ++ value ++ "' for '" ++ name ++ "'"
  | .missingArgument name => "the following required arguments were not provided: " ++ name
  | .surplusArgument value => "unexpected argument '" ++ value ++ "' found"

/-- What a command line asks for. -/
inductive Asked where
  /-- do something -/
  | run (i : Invocation)
  /-- tell the version -/
  | version
  /-- explain the commands -/
  | help
  /-- nothing that makes sense -/
  | wrong (e : UsageError)
deriving DecidableEq, Repr

/-! ## Levels -/

/-- Where in the command line the reader is: before any command, or behind one. -/
inductive Level where
  /-- before any command -/
  | top
  /-- behind `serve` -/
  | serve
  /-- behind `help` -/
  | help (inner : Bool)
  /-- behind `process` -/
  | process
  /-- behind `watch` -/
  | watch
  /-- behind `search` -/
  | search
  /-- behind `serve api` -/
  | api
  /-- behind `serve embeddings` -/
  | embeddings
  /-- behind `health` -/
  | health
  /-- behind `stats` -/
  | stats
  /-- behind `chunk` -/
  | chunk
  /-- behind `fetch` -/
  | fetch
deriving DecidableEq, Repr

namespace Level

/-- The level behind a word. -/
def below? : Level → String → Option Level
  | .top, "process" => some .process
  | .top, "watch" => some .watch
  | .top, "search" => some .search
  | .top, "serve" => some .serve
  | .top, "health" => some .health
  | .top, "stats" => some .stats
  | .top, "chunk" => some .chunk
  | .top, "fetch" => some .fetch
  | .top, "help" => some (.help false)
  | .serve, "api" => some .api
  | .serve, "embeddings" => some .embeddings
  | .serve, "help" => some (.help true)
  | _, _ => none

/-- A word selects a command here. -/
def selects : Level → Bool
  | .top => true
  | .serve => true
  | _ => false

/-- The number of arguments that are taken here. -/
def arity : Level → Nat
  | .search => 1
  | .chunk => 1
  | _ => 0

/-- An option takes a value here. -/
def takesValue (l : Level) (name : String) : Bool :=
  name == "config" || (l == .process && name == "file") ||
    (l == .search && (name == "mode" || name == "limit"))

/-- An option is a switch here. -/
def isSwitch (l : Level) (name : String) : Bool :=
  name == "verbose" || name == "help" || (l == .top && name == "version")

/-- The switch of a letter. -/
def switchOf? : Level → Char → Option String
  | _, 'v' => some "verbose"
  | _, 'h' => some "help"
  | .top, 'V' => some "version"
  | _, _ => none

end Level

/-! ## Reading -/

/-- What has been read at a level. -/
structure Draft where
  /-- the options that were given, with their values -/
  options : List (String × String) := []
  /-- the arguments, in order -/
  arguments : List String := []
  /-- the configuration file that was named at a level before -/
  outerConfig : Option String := none
deriving DecidableEq, Repr

namespace Draft

/-- The value of an option. -/
def get? (d : Draft) (name : String) : Option String := d.options.lookup name

/-- The configuration file: what is named later counts. -/
def config? (d : Draft) : Option String := (d.get? "config").or d.outerConfig

/-- A value that may not be empty. -/
def isPath (name : String) : Bool := name == "config" || name == "file"

/-- Give an option a value. -/
def addOption (d : Draft) (name value : String) : Except UsageError Draft :=
  if (d.get? name).isSome then .error (.repeatedOption name)
  else if isPath name && value.isEmpty then .error (.missingValue name)
  else if name == "limit" && (Decimal.integer? value.toList).isNone then
    .error (.badValue name value)
  else .ok { d with options := d.options ++ [(name, value)] }

/-- Turn a switch on. -/
def addSwitch (d : Draft) (name : String) : Except UsageError Draft :=
  if (d.get? name).isSome then .error (.repeatedOption name)
  else .ok { d with options := d.options ++ [(name, "")] }

/-- Add an argument. -/
def addArgument (d : Draft) (l : Level) (value : String) : Except UsageError Draft :=
  if d.arguments.length < l.arity then
    if l == .chunk && value.isEmpty then .error (.missingValue "FILE")
    else .ok { d with arguments := d.arguments ++ [value] }
  else .error (.surplusArgument value)

end Draft

/-- The limit that was read. -/
def limitOf (d : Draft) : Option Int :=
  (d.get? "limit").bind fun s => Decimal.integer? s.toList

/-- What a command line asks for that ends at a level. -/
def finish (l : Level) (d : Draft) : Asked :=
  let run (a : Action) : Asked := .run ⟨d.config?, a⟩
  match l, d.arguments with
  | .top, _ => .wrong .missingCommand
  | .serve, _ => .wrong .missingCommand
  | .help _, _ => .help
  | .process, _ => run (.process (d.get? "file"))
  | .watch, _ => run .watch
  | .search, [q] => run (.search q ((d.get? "mode").getD "hybrid") (limitOf d))
  | .search, _ => .wrong (.missingArgument "QUERY")
  | .api, _ => run .serveApi
  | .embeddings, _ => run .serveEmbeddings
  | .health, _ => run .health
  | .stats, _ => run .stats
  | .chunk, [f] => run (.chunk f)
  | .chunk, _ => .wrong (.missingArgument "FILE")
  | .fetch, _ => run .fetch

/-- The switches of a cluster of letters; the version and the help text end the reading. -/
def readCluster (l : Level) (d : Draft) : List Char → Except Asked Draft
  | [] => .ok d
  | c :: cs =>
    match l.switchOf? c with
    | some "help" => .error .help
    | some "version" => .error .version
    | some name => match d.addSwitch name with
      | .ok d => readCluster l d cs
      | .error e => .error (.wrong e)
    | none => .error (.wrong (.unknownOption ("-" ++ String.singleton c)))

/-- A switch that is spelled out. -/
def readSwitch (d : Draft) (name : String) : Except Asked Draft :=
  match name with
  | "help" => .error .help
  | "version" => .error .version
  | name => match d.addSwitch name with
    | .ok d => .ok d
    | .error e => .error (.wrong e)

/-- The name of an option and the value behind an equals sign. -/
def splitOption (cs : List Char) : String × Option String :=
  let name := cs.takeWhile (· != '=')
  (String.ofList name,
    match cs.drop name.length with
    | '=' :: v => some (String.ofList v)
    | _ => none)

/-- A text that could be the value of an option that comes before it. -/
def canBeValue (s : String) : Bool :=
  match s.toList with
  | '-' :: _ :: _ => false
  | _ => true

/-- Words behind `help` name commands. -/
def readHelp (l : Level) : List String → Asked
  | [] => .help
  | w :: ws =>
    match l.below? w with
    | some (.help _) => .help
    | some l => readHelp l ws
    | none => .wrong (.unknownCommand w)

/-- Read the arguments that are left at a level. -/
def read (l : Level) (escaped : Bool) (d : Draft) : List String → Asked
  | [] => finish l d
  | a :: rest =>
    match escaped, a.toList with
    | false, ['-', '-'] => read l true d rest
    | false, '-' :: '-' :: cs =>
      let (name, value) := splitOption cs
      if l.takesValue name then
        match value, rest with
        | some v, rest => match d.addOption name v with
          | .ok d => read l false d rest
          | .error e => .wrong e
        | none, v :: rest =>
          if canBeValue v then match d.addOption name v with
            | .ok d => read l false d rest
            | .error e => .wrong e
          else .wrong (.missingValue name)
        | none, [] => .wrong (.missingValue name)
      else if l.isSwitch name then
        if value.isSome then .wrong (.unwantedValue name)
        else match readSwitch d name with
          | .ok d => read l false d rest
          | .error asked => asked
      else .wrong (.unknownOption a)
    | false, '-' :: c :: cs =>
      match readCluster l d (c :: cs) with
      | .ok d => read l false d rest
      | .error asked => asked
    | escaped, _ =>
      match escaped, l.selects, l.below? a with
      | false, true, some (.help inner) => readHelp (if inner then .serve else .top) rest
      | false, true, some next => read next false { outerConfig := d.config? } rest
      | false, true, none => .wrong (.unknownCommand a)
      | escaped, _, _ => match d.addArgument l a with
        | .ok d => read l escaped d rest
        | .error e => .wrong e

/-- What a command line asks for. -/
def Asked.ofArguments (args : List String) : Asked :=
  read .top false {} args

end MarkdownIndex.Cli
