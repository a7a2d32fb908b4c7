import MarkdownIndex.Work

/-!
# Health: is everything there that ingestion needs

* `Check` — the outcome of one check.
* `HealthChecker.database`, `HealthChecker.embedding`, `HealthChecker.environment` — the store
  answers, a text gets a vector, and the documents can be listed.
* `Metrics`, `HealthChecker.metrics` — what the store holds.
* `HealthReport`, `HealthChecker.check` — all of it; healthy if all three checks are. Metrics that
  the store does not give are left out.
-/

namespace MarkdownIndex

/-! ## Reports -/

/-- The outcome of a check: what it found, or what was wrong. -/
abbrev Check (α : Type) := Except String α

/-- A check is healthy. -/
def Check.healthy (c : Check α) : Bool :=
  match c with
  | .ok _ => true
  | .error _ => false

/-- The word for a state. -/
def healthWord (healthy : Bool) : String :=
  if healthy then "healthy" else "unhealthy"

/-- What the store holds. -/
structure Metrics where
  /-- when it was asked -/
  timestamp : Instant
  /-- its counts -/
  stats : StoreStats

/-- The state of everything that ingestion needs. -/
structure HealthReport where
  /-- when it was made -/
  timestamp : Instant
  /-- counts of the store -/
  database : Check StoreStats
  /-- the model that is asked for -/
  model : String
  /-- the length of its vectors -/
  embedding : Check Nat
  /-- the directory of the documents -/
  docsPath : String
  /-- the number of files in it that count -/
  environment : Check Nat
  /-- what the store holds, if it says so -/
  metrics : Option Metrics

/-- Everything that ingestion needs is there. -/
def HealthReport.healthy (r : HealthReport) : Bool :=
  Check.healthy r.database && Check.healthy r.embedding && Check.healthy r.environment

/-! ## Checking -/

/-- What is checked. -/
structure HealthChecker where
  /-- lists the documents -/
  scanner : Scanner
  /-- the model that is asked for -/
  model : String

namespace HealthChecker

/-- The store can be reached and has counts. -/
def database : Work (Check StoreStats) := do
  match ← Work.store .ping with
  | .error e => return .error e.message
  | .ok () => return (← Work.store .stats).mapError (·.message)

/-- A text gets a vector; the finding is its length. -/
def embedding : Work (Check Nat) := do
  match ← embedQuery "health check" with
  | .error e => return .error e.message
  | .ok v => return .ok v.length

/-- The documents can be listed; the finding is their number. -/
def environment (h : HealthChecker) : Work (Check Nat) := do
  match ← Work.scan h.scanner with
  | .error e => return .error e.message
  | .ok paths => return .ok paths.length

/-- What the store holds. -/
def metrics : Work (Except Failure Metrics) := do
  match ← Work.store .stats with
  | .error e => return .error e
  | .ok stats => return .ok ⟨← Work.now, stats⟩

/-- All checks. -/
def check (h : HealthChecker) : Work HealthReport := do
  let database ← database
  let embedding ← embedding
  let environment ← h.environment
  let metrics ← metrics
  return ⟨← Work.now, database, h.model, embedding, Path.text h.scanner.root, environment,
    metrics.toOption⟩

end HealthChecker

/-! ## JSON -/

/-- The counts and the time of the last update as JSON. -/
def Metrics.toJson (m : Metrics) : Json := .object [
  ("timestamp", .string m.timestamp.stamp),
  ("documents", .int m.stats.documents),
  ("chunks", .int m.stats.chunks),
  ("last_update", Json.ofOption (fun t => .string (Instant.stamp t)) m.stats.lastUpdate),
  ("avg_chunk_words", Json.ofOption .float m.stats.averageWords)]

/-- A check as JSON: its state, what is always said, and what it found or what was wrong. -/
def Check.toJson (always : List (String × Json)) (found : α → List (String × Json))
    (c : Check α) : Json :=
  .object ((("status", .string (healthWord (Check.healthy c))) :: always) ++ match c with
    | .ok a => found a
    | .error e => [("error", .string e)])

/-- A report as JSON. -/
def HealthReport.toJson (r : HealthReport) : Json :=
  .object ([
    ("status", .string (healthWord r.healthy)),
    ("timestamp", .string r.timestamp.stamp),
    ("checks", .object [
      ("database", Check.toJson []
        (fun s => [("document_count", .int s.documents), ("chunk_count", .int s.chunks)])
        r.database),
      ("embedding_api", Check.toJson [("model", .string r.model)]
        (fun n => [("dimensions", .nat n)]) r.embedding),
      ("environment", Check.toJson [("docs_path", .string r.docsPath)]
        (fun n => [("markdown_files", .nat n)]) r.environment)])]
    ++ match r.metrics with
      | some m => [("metrics", m.toJson)]
      | none => [])

end MarkdownIndex
