import MarkdownIndex.Json.Decode
import MarkdownIndex.Shell

/-!
# A store in a database

* `decodeMetadata` — the metadata of a chunk out of its column. It may be an object or a text that
  holds one; what is missing, blank or does not decode counts as the default.
* `SqlStore.perform` — each request of a store as statements. A failed upsert or insertion says what
  was being written.
* `SqlStore.connect` — reach the database, with as many attempts as the configuration allows.
* `SqlStore.verify` — both tables have to be there; a missing extension is let pass.
* `Work.toShell` — work whose store is a database and whose vectors come from a provider.
-/

namespace MarkdownIndex

open Json

/-! ## Rows -/

/-- The metadata that a tree holds, or the default. -/
def metadataOr (r : Except Fault ChunkMetadata) : ChunkMetadata :=
  r.toOption.getD {}

/-- The metadata of a chunk out of its column. -/
def decodeMetadata : Option Json → ChunkMetadata
  | none => {}
  | some .null => {}
  | some (.string s) =>
    if Text.isBlankText s.toList then {}
    else metadataOr (decode? ChunkMetadata.record.decode s.toList)
  | some v => metadataOr (ChunkMetadata.record.decode v.toNode)

/-- A row as a scored chunk. -/
def ChunkRow.toScored (r : ChunkRow) : ScoredChunk :=
  ⟨r.chunkId, r.documentId, r.path, r.title.getD "", r.content, decodeMetadata r.metadata, r.score⟩

namespace SqlStore

/-! ## Requests -/

/-- Run a statement. -/
def execute (s : Statement) : Command s.Rows :=
  (Shell.database (.execute s) : Shell (Except DatabaseError s.Rows)).orFail
    DatabaseError.toFailure

/-- Say what was attempted if it fails. -/
def within (c : Command α) (attempted : String) : Command α :=
  ExceptT.mk do
    let r ← c.run
    return r.mapError (Failure.context · attempted)

/-- The time in seconds since 1970, to the millisecond. -/
def nowSeconds : Shell Float := do
  let t ← Shell.now
  let milliseconds : Int := t.fdiv 1000000
  return (if 0 ≤ milliseconds then milliseconds.toNat.toUInt64.toFloat
    else -milliseconds.natAbs.toUInt64.toFloat) / 1000

/-- A document's metadata with the time of processing, if it has none. -/
def dated (m : DocumentMetadata) : Shell DocumentMetadata :=
  if m.processedAt == 0 then do
    return { m with processedAt := ← nowSeconds }
  else return m

/-- Write a document. -/
def upsert (d : NewDocument) : Command Int := do
  let m ← (dated d.metadata : Shell DocumentMetadata)
  within (execute (.upsert d.path d.title d.content m.toJson))
    ("Failed to upsert document " ++ d.path)

/-- Add a chunk. Its position is stored in 32 bits. -/
def insertChunk (documentId : Int) (c : Chunk) (v : Embedding) : Command Unit :=
  within
    (execute (.insert documentId (c.index.bmod (Decimal.twoTo 32)) c.content (Embedding.literal v)
      c.metadata.toJson))
    ("Failed to insert chunk " ++ toString c.index)

/-- The chunks of rows. -/
def scored (c : Command (List ChunkRow)) : Command (List ScoredChunk) := do
  return (← c).map ChunkRow.toScored

/-- Counts over the store. -/
def stats : Command StoreStats := do
  let documents : Int ← execute .documents
  let lastUpdate : Option Instant ← execute .lastUpdate
  let (chunks, words) : Int × Option Float ← execute .chunkStats
  return ⟨documents, chunks, lastUpdate, words⟩

/-- The answer to a request. -/
def answer : (c : Store.Call) → Command (Store.Answer c)
  | .documentHash path => do
    let hash : Option (Option String) ← execute (.hash path)
    return (hash.join : Option String)
  | .upsertDocument d => upsert d
  | .clearDocumentHash id => execute (.clear id)
  | .deleteChunks id => execute (.delete id)
  | .insertChunk id c v => insertChunk id c v
  | .semanticSearch q floor limit =>
    scored (execute (.semantic (Embedding.literal q) floor limit))
  | .fulltextSearch q limit => scored (execute (.fulltext q limit))
  | .stats => stats
  | .ping => execute .ping

/-- Answer a request. -/
def perform (c : Store.Call) : Shell (Store.Reply c) :=
  (answer c).run

/-! ## Connecting -/

/-- One attempt: connect and get an answer. -/
def tryConnect (url : String) (most least : Nat) : Command Unit := do
  (Shell.database (.connect url most least) : Shell (Except DatabaseError Unit)).orFail
    DatabaseError.toFailure
  execute .ping

/-- Attempts with pauses between them; `further` ones come after the first. -/
def attempts (url : String) (d : Config.Database) : (further : Nat) → Command Unit
  | 0 => tryConnect url d.maxConnections d.minConnections
  | n + 1 =>
    tryCatch (tryConnect url d.maxConnections d.minConnections) fun _ => do
      (Shell.pause (d.connectRetryInterval * 1000) : Shell Unit)
      attempts url d n

/-- Reach the database. -/
def connect (d : Config.Database) : Command Unit :=
  match d.requireUrl with
  | .error e => throw ⟨e.message, []⟩
  | .ok url =>
    let count := max d.connectRetries 1
    within (attempts url d (count - 1))
      ("database unavailable after " ++ toString count ++ " attempts")

/-- A table has to be there. -/
def requireTable (present : List String) (name : String) : Command Unit :=
  if present.contains name then return ()
  else throw ⟨"required table '" ++ name ++ "' does not exist", []⟩

/-- Both tables have to be there. -/
def verify : Command Unit := do
  let _ : Bool ← execute .extension
  let present : List String ← execute .tables
  requireTable present "documents"
  requireTable present "document_chunks"

end SqlStore

/-- A request of the index at work, where the store is a database and vectors come from a
provider. -/
def Work.answerWith (provider : Provider) : (c : Work.Call) → Shell (Work.Reply c)
  | .host c => Program.ask (I := Shell.interface) (.host c)
  | .store c => SqlStore.perform c
  | .embed texts => Shell.net (provider.embed texts)

/-- Work whose store is a database and whose vectors come from a provider. -/
def Work.toShell (provider : Provider) (p : Work α) : Shell α :=
  p.run (Work.answerWith provider)

end MarkdownIndex
