import MarkdownIndex.Chunk
import MarkdownIndex.Embedding.Message

/-!
# Configuration: what can be set, and what is accepted

* One structure for each section, with the defaults, and `Config` for all of them.
* `Config.override` — values of the deployment that come from the environment.
* `ConfigError`, `Config.validate` — the first rule that a configuration breaks.
* `Database.requireUrl` — the address of the database, which has no default.
-/

namespace MarkdownIndex

open Text

/-! ## Sections -/

namespace Config

/-- The database. -/
structure Database where
  /-- its address -/
  url : Option String := none
  /-- the greatest number of connections -/
  maxConnections : Nat := 10
  /-- connections that are kept open -/
  minConnections : Nat := 2
  /-- attempts to reach it at the start -/
  connectRetries : Nat := 30
  /-- seconds between attempts -/
  connectRetryInterval : Nat := 2
deriving DecidableEq, Repr, Inhabited

/-- The documents. -/
structure Docs where
  /-- the directory they are in -/
  root : String := "./docs"
  /-- patterns of the files that count -/
  includeGlobs : List String := ["**/*.md"]
  /-- patterns of files that do not -/
  excludeGlobs : List String := []
  /-- symbolic links are followed -/
  followSymlinks : Bool := false
deriving DecidableEq, Repr, Inhabited

/-- The embedding client. -/
structure Client where
  /-- `http` or `disabled` -/
  provider : String := "http"
  /-- address of the embedding service -/
  url : String := "http://localhost:8001"
  /-- the model asked for -/
  model : String := defaultModelName
  /-- texts in one request -/
  batchSize : Nat := 10
  /-- further attempts after a passing failure -/
  maxRetries : Nat := 3
  /-- seconds until a request is given up -/
  timeout : Nat := 30
  /-- milliseconds before the first further attempt -/
  backoff : Nat := 1000
  /-- milliseconds between requests of one document -/
  requestDelay : Nat := 100
deriving DecidableEq, Repr, Inhabited

/-- The search. -/
structure Search where
  /-- the least similarity of a semantic hit -/
  similarityThreshold : Float := 0.7
  /-- hits that are shown when no number is asked for -/
  defaultLimit : Int := 10
  /-- the greatest number that can be asked for -/
  maxLimit : Int := 50
deriving Inhabited

/-- The search service. -/
structure Server where
  /-- the address it listens on -/
  bind : String := "0.0.0.0:8000"
deriving DecidableEq, Repr, Inhabited

/-- The watching process. -/
structure Processor where
  /-- the address its health service listens on -/
  healthBind : String := "0.0.0.0:8080"
  /-- seconds between two looks at the documents -/
  pollInterval : Nat := 2
deriving DecidableEq, Repr, Inhabited

/-- The embedding service. -/
structure Embedder where
  /-- the address it listens on -/
  bind : String := "0.0.0.0:8001"
  /-- `local` or `hashing` -/
  backend : String := "local"
  /-- the model that is loaded -/
  model : String := "all-minilm-l6-v2"
  /-- the greatest number of texts in a request -/
  maxTexts : Nat := 100
  /-- the length of the vectors of feature hashing -/
  hashingDims : Nat := 384
deriving DecidableEq, Repr, Inhabited

/-- The remote notes. -/
structure Remote where
  /-- their address -/
  baseUrl : String := "https://api.graftapp.co"
  /-- who logs in -/
  email : Option String := none
  /-- and with what -/
  password : Option String := none
  /-- milliseconds until a request is given up -/
  timeout : Nat := 10000
deriving DecidableEq, Repr, Inhabited

end Config

/-- A whole configuration. -/
structure Config where
  /-- the database -/
  db : Config.Database := {}
  /-- the documents -/
  docs : Config.Docs := {}
  /-- how documents are cut into chunks -/
  chunking : ChunkLimits := {}
  /-- the embedding client -/
  embedding : Config.Client := {}
  /-- the search -/
  search : Config.Search := {}
  /-- the search service -/
  server : Config.Server := {}
  /-- the watching process -/
  processor : Config.Processor := {}
  /-- the embedding service -/
  embeddingService : Config.Embedder := {}
  /-- the remote notes -/
  remote : Config.Remote := {}
deriving Inhabited

/-! ## Environment -/

/-- The environment: the value of a variable, if it is set. -/
abbrev Environment := String → Option String

/-- A configuration with the values that the environment sets. -/
def Config.override (c : Config) (env : Environment) : Config :=
  { c with
    db := { c.db with url := (env "DATABASE_URL").or c.db.url }
    docs := { c.docs with root := (env "DOCS_PATH").getD c.docs.root }
    embedding := { c.embedding with url := (env "EMBEDDING_SERVICE_URL").getD c.embedding.url }
    remote :=
      { c.remote with
        email := (env "REMOTE_EMAIL").or c.remote.email
        password := (env "REMOTE_PASSWORD").or c.remote.password } }

/-! ## Rules -/

/-- What is wrong with a configuration. -/
inductive ConfigError where
  /-- the file cannot be read -/
  | unreadable (path : String)
  /-- the file is no configuration -/
  | unparsable
  /-- sections may not be whole at any length -/
  | maxChars
  /-- a batch must hold a text -/
  | batchSize
  /-- there is no such embedding client -/
  | provider (name : String)
  /-- no similarity is beyond these bounds -/
  | similarityThreshold
  /-- a hit must be possible -/
  | maxLimit
  /-- the number of hits that are shown must be one that can be asked for -/
  | defaultLimit (maxLimit : Int)
  /-- there is no such embedder -/
  | backend (name : String)
  /-- a request must be able to hold a text -/
  | maxTexts
  /-- the address of the database is missing -/
  | noDatabaseUrl
deriving DecidableEq, Repr

/-- The wording of an error. -/
def ConfigError.message : ConfigError → String
  | .unreadable path => "Failed to read config file: " ++ path
  | .unparsable => "Failed to parse config file"
  | .maxChars => "chunking.max_chars must be > 0"
  | .batchSize => "embedding.batch_size must be > 0"
  | .provider name =>
    "Unknown embedding provider: '" ++ name ++ "'. Must be http or disabled."
  | .similarityThreshold => "search.similarity_threshold must be in [0.0, 1.0]"
  | .maxLimit => "search.max_limit must be >= 1"
  | .defaultLimit n => "search.default_limit must be between 1 and " ++ toString n
  | .backend name =>
    "Unknown embedding_service.backend: '" ++ name ++ "'. Must be local or hashing."
  | .maxTexts => "embedding_service.max_texts must be > 0"
  | .noDatabaseUrl => "db.url (or DATABASE_URL) must be set"

/-- Refuse unless a rule holds. -/
def ensure (rule : Bool) (e : ε) : Except ε Unit :=
  if rule then .ok () else .error e

/-- Check the rules of a configuration in order. -/
def Config.validate (c : Config) : Except ConfigError Unit := do
  ensure (0 < c.chunking.maxChars) .maxChars
  ensure (0 < c.embedding.batchSize) .batchSize
  ensure (c.embedding.provider == "http" || c.embedding.provider == "disabled")
    (.provider c.embedding.provider)
  ensure (0 ≤ c.search.similarityThreshold && c.search.similarityThreshold ≤ 1)
    .similarityThreshold
  ensure (1 ≤ c.search.maxLimit) .maxLimit
  ensure (1 ≤ c.search.defaultLimit && c.search.defaultLimit ≤ c.search.maxLimit)
    (.defaultLimit c.search.maxLimit)
  ensure (c.embeddingService.backend == "local" || c.embeddingService.backend == "hashing")
    (.backend c.embeddingService.backend)
  ensure (0 < c.embeddingService.maxTexts) .maxTexts

/-- The address of the database; a blank one counts as none. -/
def Config.Database.requireUrl (d : Config.Database) : Except ConfigError String :=
  match d.url with
  | some url => if isBlankText url.toList then .error .noDatabaseUrl else .ok url
  | none => .error .noDatabaseUrl

end MarkdownIndex
