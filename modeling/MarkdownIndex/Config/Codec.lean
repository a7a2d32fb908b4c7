import MarkdownIndex.Config
import MarkdownIndex.Json.Decode
import MarkdownIndex.Toml.Document

/-!
# Reading a configuration

A configuration is a TOML document; the same sections are also read from JSON values. Keys that a
section does not have are skipped, and a key that is missing keeps its default.

* `field` — a key of a section, of which a tree of values holds at most one.
* One decoder for each section, and `Config.record` for all of them.
* `Toml.Value.toNode` — a TOML value as a tree; a date is a table with its spelling.
* `Config.ofToml`, `Config.load` — a configuration out of a text and an environment.
-/

namespace MarkdownIndex

open Json

/-! ## Trees of TOML values -/

namespace Toml

mutual

/-- The tree of a TOML value. -/
def Value.toNode : Value → Node
  | .string s => .string (some s)
  | .integer n => .number (some (.int n))
  | .float x => .number (some (.float x))
  | .boolean b => .bool b
  | .datetime s => .object [(some "$__toml_private_datetime", .string (some s))]
  | .array items => .array (itemNodes items)
  | .table members => .object (memberNodes members)

/-- The trees of the items of an array. -/
def itemNodes : List Value → List Node
  | [] => []
  | v :: vs => v.toNode :: itemNodes vs

/-- The trees of the members of a table. -/
def memberNodes : List (String × Value) → List (Option String × Node)
  | [] => []
  | (k, v) :: ms => (some k, v.toNode) :: memberNodes ms

end

end Toml

/-! ## Sections -/

namespace Config

/-- How a key of a section changes it. -/
def field (d : Decoder β) (set : σ → β → σ) : Option (Node → σ → Except Fault σ) :=
  some fun n s => (d n).map (set s)

/-- The decoder of the database section. -/
def Database.record : Record Database Database where
  empty := {}
  names :=
    ["url", "max_connections", "min_connections", "connect_retries", "connect_retry_interval_secs"]
  field
    | "url" => field (optional text) fun s x => { s with url := x }
    | "max_connections" => field (natural 32) fun s x => { s with maxConnections := x }
    | "min_connections" => field (natural 32) fun s x => { s with minConnections := x }
    | "connect_retries" => field (natural 32) fun s x => { s with connectRetries := x }
    | "connect_retry_interval_secs" =>
      field (natural 64) fun s x => { s with connectRetryInterval := x }
    | _ => none
  finish := .ok

/-- The decoder of the section on documents. -/
def Docs.record : Record Docs Docs where
  empty := {}
  names := ["root", "include_globs", "exclude_globs", "follow_symlinks"]
  field
    | "root" => field text fun s x => { s with root := x }
    | "include_globs" => field (listOf text) fun s x => { s with includeGlobs := x }
    | "exclude_globs" => field (listOf text) fun s x => { s with excludeGlobs := x }
    | "follow_symlinks" => field flag fun s x => { s with followSymlinks := x }
    | _ => none
  finish := .ok

/-- The decoder of the section on chunks. -/
def chunkingRecord : Record ChunkLimits ChunkLimits where
  empty := {}
  names := ["max_chars", "overlap_lines"]
  field
    | "max_chars" => field (natural 64) fun s x => { s with maxChars := x }
    | "overlap_lines" => field (natural 64) fun s x => { s with overlapLines := x }
    | _ => none
  finish := .ok

/-- The decoder of the section on the embedding client. -/
def Client.record : Record Client Client where
  empty := {}
  names := ["provider", "url", "model", "batch_size", "max_retries", "timeout_secs", "backoff_ms",
    "request_delay_ms"]
  field
    | "provider" => field text fun s x => { s with provider := x }
    | "url" => field text fun s x => { s with url := x }
    | "model" => field text fun s x => { s with model := x }
    | "batch_size" => field (natural 64) fun s x => { s with batchSize := x }
    | "max_retries" => field (natural 32) fun s x => { s with maxRetries := x }
    | "timeout_secs" => field (natural 64) fun s x => { s with timeout := x }
    | "backoff_ms" => field (natural 64) fun s x => { s with backoff := x }
    | "request_delay_ms" => field (natural 64) fun s x => { s with requestDelay := x }
    | _ => none
  finish := .ok

/-- The decoder of the section on the search. -/
def Search.record : Record Search Search where
  empty := {}
  names := ["similarity_threshold", "default_limit", "max_limit"]
  field
    | "similarity_threshold" => field float64 fun s x => { s with similarityThreshold := x }
    | "default_limit" => field integer fun s x => { s with defaultLimit := x }
    | "max_limit" => field integer fun s x => { s with maxLimit := x }
    | _ => none
  finish := .ok

/-- The decoder of the section on the search service. -/
def Server.record : Record Server Server where
  empty := {}
  names := ["bind"]
  field
    | "bind" => field text fun _ x => ⟨x⟩
    | _ => none
  finish := .ok

/-- The decoder of the section on the watching process. -/
def Processor.record : Record Processor Processor where
  empty := {}
  names := ["health_bind", "poll_interval_secs"]
  field
    | "health_bind" => field text fun s x => { s with healthBind := x }
    | "poll_interval_secs" => field (natural 64) fun s x => { s with pollInterval := x }
    | _ => none
  finish := .ok

/-- The decoder of the section on the embedding service. -/
def Embedder.record : Record Embedder Embedder where
  empty := {}
  names := ["bind", "backend", "model", "max_texts", "hashing_dims"]
  field
    | "bind" => field text fun s x => { s with bind := x }
    | "backend" => field text fun s x => { s with backend := x }
    | "model" => field text fun s x => { s with model := x }
    | "max_texts" => field (natural 64) fun s x => { s with maxTexts := x }
    | "hashing_dims" => field (natural 64) fun s x => { s with hashingDims := x }
    | _ => none
  finish := .ok

/-- The decoder of the section on the remote notes. -/
def Remote.record : Record Remote Remote where
  empty := {}
  names := ["base_url", "email", "password", "timeout_ms"]
  field
    | "base_url" => field text fun s x => { s with baseUrl := x }
    | "email" => field (optional text) fun s x => { s with email := x }
    | "password" => field (optional text) fun s x => { s with password := x }
    | "timeout_ms" => field (natural 64) fun s x => { s with timeout := x }
    | _ => none
  finish := .ok

/-! ## The whole configuration -/

/-- The decoder of a configuration, with the treatment of surplus items where a section is given as
an array. -/
def record (surplus : Bool) : Record Config Config where
  empty := {}
  names := ["db", "docs", "chunking", "embedding", "search", "server", "processor",
    "embedding_service", "remote"]
  field
    | "db" => field (Database.record.decodeWith surplus) fun s x => { s with db := x }
    | "docs" => field (Docs.record.decodeWith surplus) fun s x => { s with docs := x }
    | "chunking" => field (chunkingRecord.decodeWith surplus) fun s x => { s with chunking := x }
    | "embedding" => field (Client.record.decodeWith surplus) fun s x => { s with embedding := x }
    | "search" => field (Search.record.decodeWith surplus) fun s x => { s with search := x }
    | "server" => field (Server.record.decodeWith surplus) fun s x => { s with server := x }
    | "processor" =>
      field (Processor.record.decodeWith surplus) fun s x => { s with processor := x }
    | "embedding_service" =>
      field (Embedder.record.decodeWith surplus) fun s x => { s with embeddingService := x }
    | "remote" => field (Remote.record.decodeWith surplus) fun s x => { s with remote := x }
    | _ => none
  finish := .ok

/-- The configuration that a TOML text holds. Surplus items of an array are let pass there. -/
def ofToml (content : String) : Except ConfigError Config :=
  match Toml.parse? content with
  | none => .error .unparsable
  | some members =>
    match (record true).decodeWith true (Toml.Value.table members).toNode with
    | .ok c => .ok c
    | .error _ => .error .unparsable

/-- A configuration with the environment applied to it, if it keeps the rules. -/
def finish (c : Config) (env : Environment) : Except ConfigError Config := do
  let c := c.override env
  c.validate
  return c

/-- The configuration of a file's text and an environment. -/
def load (content : String) (env : Environment) : Except ConfigError Config := do
  let c ← ofToml content
  c.finish env

/-- The configuration without a file. -/
def ofEnvironment (env : Environment) : Except ConfigError Config :=
  ({} : Config).finish env

end Config

end MarkdownIndex
