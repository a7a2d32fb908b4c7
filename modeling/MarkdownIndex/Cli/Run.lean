import MarkdownIndex.Cli.Arguments
import MarkdownIndex.Cli.Dotenv
import MarkdownIndex.Cli.Report
import MarkdownIndex.Config.Codec
import MarkdownIndex.Remote
import MarkdownIndex.Store.Sql
import MarkdownIndex.Version

/-!
# Commands: what each of them does

* `Exit` — how the program ends: well, with a failure, or because the command line made no sense.
* `configuration` — the configuration of an invocation: the file that is named, else the usual one
  if it is there, else the defaults; values of the environment come on top.
* One function for each action, and `act` for all of them.
* `run` — the whole program.
-/

namespace MarkdownIndex.Cli

open Text

/-- How the program ends. -/
inductive Exit where
  /-- well -/
  | success
  /-- with a failure -/
  | failure (f : Failure)
  /-- the command line made no sense -/
  | usage (e : UsageError)
deriving DecidableEq, Repr

/-- The code of an ending. -/
def Exit.code : Exit → Nat
  | .success => 0
  | .failure _ => 1
  | .usage _ => 2

/-- What an ending has to say where errors are told. -/
def Exit.complaint : Exit → String
  | .success => ""
  | .failure f => failureText f
  | .usage e => "error: " ++ e.message ++ "\n"

/-! ## Configuration -/

/-- Where the configuration is looked for when no file is named. -/
def usualConfig : String := "./config/mstore.toml"

/-- Where variables are looked for that the environment does not set. -/
def variablesFile : String := ".env"

/-- The environment: the variables that are set, and those of the file. -/
def environment : Shell Environment := do
  let set ← Shell.environment
  let env : Environment := fun n => set.lookup n
  match ← Shell.read (Path.ofText variablesFile) with
  | .error _ => return env
  | .ok bytes => match decode? bytes with
    | some cs => return Dotenv.load env (String.ofList cs)
    | none => return env

/-- The configuration of a file. -/
def configOfFile (env : Environment) (path : String) : Command Config := do
  match ← (Shell.read (Path.ofText path) : Shell (Except Files.FileError (List UInt8))) with
  | .error _ => throw ⟨ConfigError.message (.unreadable path), []⟩
  | .ok bytes => match decode? bytes with
    | none => throw ⟨ConfigError.message (.unreadable path), []⟩
    | some cs => match Config.load (String.ofList cs) env with
      | .error e => throw ⟨e.message, []⟩
      | .ok c => return c

/-- The configuration of an invocation. -/
def configuration (named : Option String) : Command Config := do
  let env ← (environment : Shell Environment)
  match named with
  | some path => configOfFile env path
  | none =>
    if ← (Shell.leads (Path.ofText usualConfig) : Shell Bool) then configOfFile env usualConfig
    else match Config.ofEnvironment env with
      | .error e => throw ⟨e.message, []⟩
      | .ok c => return c

/-! ## Parts -/

/-- A value that may be missing with a reason. -/
def need (r : Except ε α) (f : ε → String) : Command α :=
  match r with
  | .ok a => return a
  | .error e => throw ⟨f e, []⟩

/-- Print a text. -/
def say (text : String) : Command Unit :=
  (Shell.print text : Shell Unit)

/-- Reach the database and see that its tables are there. -/
def openStore (c : Config) : Command Unit := do
  SqlStore.connect c.db
  SqlStore.verify

/-- Where vectors come from. -/
def provider (c : Config) : Command Provider :=
  need (Provider.ofConfig c.embedding) UnknownProvider.message

/-- A pattern that cannot be read. -/
def globMessage (_ : Glob.GlobError) : String := "error parsing glob"

/-- Reach everything that ingestion needs. -/
def openIngestor (c : Config) : Command (Provider × Ingestor) := do
  openStore c
  let p ← provider c
  let g ← need (Ingestor.ofConfig c) globMessage
  return (p, g)

/-- Do work with a provider. -/
def work (p : Provider) (w : Work α) : Command α :=
  (Work.toShell p w : Shell α)

/-- Run a service until told to stop; where it listens is a text. -/
def serve (bind : String) (service : Service) : Command Unit := do
  let listener ← need (Listener.parse bind) ListenError.message
  (Shell.serve listener service).orFail id

/-! ## Actions -/

/-- Ingest one file, or all that count. -/
def process (c : Config) (file : Option String) : Command Unit := do
  let (p, g) ← openIngestor c
  match file with
  | some path => match ← work p (g.processFile (Path.ofText path)).run with
    | .error (.store f) => throw f
    | .error e => throw ⟨e.message, []⟩
    | .ok outcome => say (outcomeText path outcome)
  | none => match ← work p g.processAll with
    | .error e => throw ⟨e.message, []⟩
    | .ok report => say (reportText report)

/-- Ingest all files, then watch them until told to stop. -/
def watch (c : Config) : Command Unit := do
  let (p, g) ← openIngestor c
  match ← work p g.processAll with
  | .error e => throw ⟨e.message, []⟩
  | .ok _ =>
    let h : HealthChecker := ⟨g.scanner, p.modelName⟩
    let interval := max c.processor.pollInterval 1 * 1000
    serve c.processor.healthBind (.watching g h p interval)

/-- Search and print the hits. -/
def search (c : Config) (query mode : String) (limit : Option Int) : Command Unit := do
  let mode ← need (SearchMode.parse mode) SearchError.message
  openStore c
  let p ← provider c
  let s := SearchService.ofConfig c.search
  match ← work p (s.search mode query (limit.getD s.defaultLimit)).run with
  | .error e => throw ⟨e.message, []⟩
  | .ok hits => say (hitsText query mode hits)

/-- Run the search service until told to stop. -/
def serveApi (c : Config) : Command Unit := do
  openStore c
  let p ← provider c
  serve c.server.bind (.search (.ofConfig c.search) p)

/-- Run the embedding service until told to stop, also without a model. -/
def serveEmbeddings (c : Config) : Command Unit :=
  let s : EmbeddingService :=
    ⟨(Embedder.ofConfig c.embeddingService).toOption, c.embeddingService.maxTexts⟩
  serve c.embeddingService.bind (.embedding s)

/-- Print a health report; it is a failure if something is missing. The database gets one
attempt. -/
def health (c : Config) : Command Unit := do
  SqlStore.connect { c.db with connectRetries := 1 }
  let p ← provider c
  let scanner ← need (Scanner.ofConfig c.docs) globMessage
  let report ← work p (HealthChecker.mk scanner p.modelName).check
  say (report.toJson.pretty ++ "\n")
  if report.healthy then return ()
  else throw ⟨"unhealthy", []⟩

/-- Print what is indexed. -/
def stats (c : Config) : Command Unit := do
  openStore c
  let text ← (Work.toShell .disabled statsSummary).orFail id
  say text

/-- Print the chunks of a file. -/
def chunk (c : Config) (file : String) : Command Unit := do
  match ← (Shell.read (Path.ofText file) : Shell (Except Files.FileError (List UInt8))) with
  | .error e => throw ⟨"Failed to read " ++ file, [e.message]⟩
  | .ok bytes => match decode? bytes with
    | none => throw ⟨"Failed to read " ++ file, ["stream did not contain valid UTF-8"]⟩
    | some cs =>
      let found := chunks c.chunking (String.ofList cs)
      say ((Json.array (found.map Chunk.toJson)).pretty ++ "\n")

/-- Fetch the remote notes and print them. -/
def fetch (c : Config) : Command Unit := do
  match c.remote.email, c.remote.password with
  | some email, some password => do
    let (account, _) ← (Shell.net ((RemoteClient.ofConfig c.remote).account ⟨email, password⟩) :
      Shell (Except RemoteError Account × RemoteClient))
    match account with
    | .error e => throw ⟨e.message, []⟩
    | .ok a => say (a.toJson.pretty ++ "\n")
  | _, _ =>
    throw ⟨"remote credentials missing: set remote.email/remote.password or " ++
      "REMOTE_EMAIL/REMOTE_PASSWORD", []⟩

/-- Do what is asked for. -/
def act (c : Config) : Action → Command Unit
  | .process file => process c file
  | .watch => watch c
  | .search query mode limit => search c query mode limit
  | .serveApi => serveApi c
  | .serveEmbeddings => serveEmbeddings c
  | .health => health c
  | .stats => stats c
  | .chunk file => chunk c file
  | .fetch => fetch c

/-! ## The program -/

/-- The help text. -/
def helpText : String :=
  "Memory Store: markdown chunking, pgvector ingestion and hybrid search\n\n" ++
  "Usage: mstore [OPTIONS] <COMMAND>\n\n" ++
  "Commands:\n" ++
  "  process     Chunk, embed and store markdown documents\n" ++
  "  watch       Process everything once, then watch the docs root for changes\n" ++
  "  search      Search indexed chunks\n" ++
  "  serve       Start an HTTP service\n" ++
  "  health      Check database, embedding service and docs root\n" ++
  "  stats       Show document and chunk counts\n" ++
  "  chunk       Print the chunks of a markdown file as JSON\n" ++
  "  fetch       Log in to the remote notes API and print projects with their notes\n"

/-- Do what an invocation asks for. -/
def invoke (i : Invocation) : Command Unit := do
  let c ← configuration i.config
  act c i.action

/-- The whole program. -/
def run (args : List String) : Shell Exit :=
  match Asked.ofArguments args with
  | .version => do
    Shell.print ("mstore " ++ version ++ "\n")
    return .success
  | .help => do
    Shell.print helpText
    return .success
  | .wrong e => return .usage e
  | .run i => do
    match ← (invoke i).run with
    | .ok () => return .success
    | .error f => return .failure f

end MarkdownIndex.Cli
