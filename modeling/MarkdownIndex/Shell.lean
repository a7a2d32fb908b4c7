import MarkdownIndex.Database.Statement
import MarkdownIndex.Embedding.Client
import MarkdownIndex.Health
import MarkdownIndex.Http.EmbeddingApi
import MarkdownIndex.Ingest
import MarkdownIndex.Net.Listener
import MarkdownIndex.Search

/-!
# The shell: everything that a command can ask for

* `Service` — what can be run until the program is told to stop.
* `Shell` — a program over the machine, the network, a database, the environment and the terminal.
* `Shell.host`, `Shell.net`, `Shell.database` — programs over one of them, as parts of a command.
-/

namespace MarkdownIndex

/-! ## Services -/

/-- What can be run until the program is told to stop. -/
inductive Service where
  /-- the search service -/
  | search (s : SearchService) (provider : Provider)
  /-- the embedding service -/
  | embedding (s : EmbeddingService)
  /-- the watcher, with its health service; it looks at the files every so many milliseconds -/
  | watching (g : Ingestor) (health : HealthChecker) (provider : Provider) (interval : Nat)

/-! ## Requests -/

namespace Shell

/-- A request of a command. -/
inductive Call where
  /-- a request to the machine -/
  | host (c : Host.Call)
  /-- a request to the network -/
  | net (c : Net.Call)
  /-- a request to the database -/
  | database (c : Database.Call)
  /-- the variables of the environment with their values -/
  | environment
  /-- print a text -/
  | print (text : String)
  /-- run a service that listens for requests -/
  | serve (listener : Listener) (service : Service)

/-- The answer to a request. -/
def Reply : Call → Type
  | .host c => Host.Reply c
  | .net c => Net.Reply c
  | .database c => Database.Reply c
  | .environment => List (String × String)
  | .print _ => Unit
  | .serve _ _ => Except Failure Unit

/-- All of it as an interface. -/
def interface : Interface := ⟨Call, Reply⟩

end Shell

/-- A command. -/
abbrev Shell (α : Type) : Type := Program Shell.interface α

/-- A command that may fail. -/
abbrev Command (α : Type) : Type := ExceptT Failure (Program Shell.interface) α

namespace Shell

/-! ## Parts of commands -/

/-- A program over the machine. -/
def host (p : Program Host.interface α) : Shell α :=
  p.run fun c => Program.ask (I := interface) (.host c)

/-- A program over the network. -/
def net (p : Net α) : Shell α :=
  p.run fun c => Program.ask (I := interface) (.net c)

/-- A single request to the database. -/
def database (c : Database.Call) : Shell (Database.Reply c) :=
  Program.ask (I := interface) (.database c)

/-- The time. -/
def now : Shell Instant :=
  Program.ask (I := interface) (.host .now)

/-- Let time pass. -/
def pause (milliseconds : Nat) : Shell Unit :=
  Program.ask (I := interface) (.host (.pause milliseconds))

/-- The bytes of a file. -/
def read (path : Path) : Shell (Except Files.FileError (List UInt8)) :=
  Program.ask (I := interface) (.host (.read path))

/-- Whether a path leads anywhere. -/
def leads (path : Path) : Shell Bool :=
  Program.ask (I := interface) (.host (.leads path))

/-- The variables of the environment with their values. -/
def environment : Shell (List (String × String)) :=
  Program.ask (I := interface) .environment

/-- Print a text. -/
def print (text : String) : Shell Unit :=
  Program.ask (I := interface) (.print text)

/-- Run a service. -/
def serve (listener : Listener) (service : Service) : Shell (Except Failure Unit) :=
  Program.ask (I := interface) (.serve listener service)

/-- A part of a command that may fail. -/
def orFail (p : Shell (Except ε α)) (f : ε → Failure) : Command α :=
  ExceptT.mk do
    let r ← p
    return r.mapError f

end Shell

end MarkdownIndex
