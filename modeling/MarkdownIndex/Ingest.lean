import MarkdownIndex.Config
import MarkdownIndex.Digest.Sha256
import MarkdownIndex.Markdown.Title
import MarkdownIndex.Work

/-!
# Ingestion: from a file to its chunks in the store

The store knows a file by the text of its path. A file whose bytes have the hash that the store
holds is left alone. Otherwise its text is cut into chunks, its document is written, the chunks it
had are taken away, and the new ones are embedded and added batch by batch. When a step after the
writing of the document fails, the hash of the document is cleared, so that the next pass does not
take the file for unchanged.

* `Ingestor` — the scanner and the sizes that ingestion goes by.
* `IngestError`, `FileOutcome` — how a file can end.
* `Ingestor.processFile` — one file.
* `IngestReport`, `Ingestor.processAll` — all files in the order of their paths; one that fails does
  not stop the others.
-/

namespace MarkdownIndex

open Text

/-! ## Outcomes -/

/-- Why a file was not ingested. -/
inductive IngestError where
  /-- it cannot be read -/
  | read (path : Path) (reason : Files.FileError)
  /-- it is no text -/
  | notUtf8 (path : Path)
  /-- it has no chunks -/
  | emptyDocument (path : Path)
  /-- a batch of chunks got no vectors -/
  | embedding (chunkIndex : Int) (reason : EmbeddingError)
  /-- a batch of chunks got another number of vectors -/
  | vectorCount (expected got : Nat)
  /-- the store failed -/
  | store (reason : Failure)
deriving DecidableEq, Repr

/-- The wording of an error. -/
def IngestError.message : IngestError → String
  | .read path reason => "failed to read " ++ Path.text path ++ ": " ++ reason.message
  | .notUtf8 path => Path.text path ++ " is not valid UTF-8"
  | .emptyDocument path => Path.text path ++ " has no content to chunk"
  | .embedding i reason =>
    "embedding chunk batch starting at " ++ toString i ++ " failed: " ++ reason.message
  | .vectorCount expected got =>
    "embedding service returned " ++ toString got ++ " vectors for " ++ toString expected ++
      " chunks"
  | .store reason => reason.message

/-- How a file ended that did not fail. -/
inductive FileOutcome where
  /-- its chunks were written -/
  | processed (chunks : Nat)
  /-- it is unchanged -/
  | skipped
deriving DecidableEq, Repr

/-! ## Ingestors -/

/-- What ingestion goes by. -/
structure Ingestor where
  /-- finds the files -/
  scanner : Scanner
  /-- how documents are cut -/
  limits : ChunkLimits
  /-- chunks that are embedded together; zero counts as one -/
  batchSize : Nat
  /-- milliseconds between two batches of a file -/
  requestDelay : Nat

/-- The ingestor of a configuration. -/
def Ingestor.ofConfig (c : Config) : Except Glob.GlobError Ingestor := do
  let scanner ← Scanner.ofConfig c.docs
  return ⟨scanner, c.chunking, c.embedding.batchSize, c.embedding.requestDelay⟩

/-- Consecutive items in groups of a size; the last group may be smaller, and a size of zero counts
as one. -/
def batches (size : Nat) : List α → List (List α)
  | [] => []
  | a :: as => (a :: as.take (size - 1)) :: batches size (as.drop (size - 1))
termination_by as => as.length
decreasing_by simp only [List.length_drop, List.length_cons]; omega

namespace Ingestor

/-! ## Chunks -/

/-- An answer of the store, without which a file fails. -/
def stored (c : Store.Call) : Attempt IngestError (Store.Answer c) :=
  (Work.store c).orFail .store

/-- Add chunks with their vectors. -/
def insertAll (documentId : Int) : List (Chunk × Embedding) → Attempt IngestError Unit
  | [] => return ()
  | (c, v) :: rest => do
    let () ← stored (.insertChunk documentId c v)
    insertAll documentId rest

/-- The position of the first chunk of a batch. -/
def firstIndex : List Chunk → Int
  | [] => 0
  | c :: _ => c.index

/-- Embed and add a batch of chunks. -/
def writeBatch (documentId : Int) (batch : List Chunk) : Attempt IngestError Unit := do
  let vectors ← (Work.embed (batch.map (·.content))).orFail (.embedding (firstIndex batch))
  if vectors.length = batch.length then insertAll documentId (batch.zip vectors)
  else throw (.vectorCount batch.length vectors.length)

/-- Let time pass before a batch that is not the first. -/
def delay (g : Ingestor) (first : Bool) : Attempt IngestError Unit :=
  if first ∨ g.requestDelay = 0 then return ()
  else (Work.pause g.requestDelay : Work Unit)

/-- Embed and add some batches of chunks. -/
def writeBatches (g : Ingestor) (documentId : Int) (first : Bool) :
    List (List Chunk) → Attempt IngestError Unit
  | [] => return ()
  | b :: bs => do
    g.delay first
    writeBatch documentId b
    g.writeBatches documentId false bs

/-- Put chunks in the place of those that a document has. -/
def writeChunks (g : Ingestor) (documentId : Int) (cs : List Chunk) :
    Attempt IngestError Unit := do
  let _ ← stored (.deleteChunks documentId)
  g.writeBatches documentId true (batches g.batchSize cs)

/-! ## Files -/

/-- The document of a file. The store knows it by the text of its path. -/
def documentOf (path : Path) (content hash : String) (size : Nat) (lastModified : Option Instant)
    (now : Instant) : NewDocument where
  path := Path.text path
  title := Markdown.title content (Path.fileStem path)
  content := content
  metadata :=
    { fileHash := some hash
      fileSize := size
      lastModified := (lastModified.map Instant.seconds).getD 0
      processedAt := now.seconds }

/-- Write a document and its chunks. -/
def write (g : Ingestor) (document : NewDocument) (cs : List Chunk) :
    Attempt IngestError FileOutcome := do
  let id ← stored (.upsertDocument document)
  tryCatch
    (do
      g.writeChunks id cs
      return .processed cs.length)
    (fun e => do
      let _ ← (Work.store (.clearDocumentHash id) : Work (Store.Reply (.clearDocumentHash id)))
      throw e)

/-- Ingest a file whose bytes have changed. -/
def processBytes (g : Ingestor) (path : Path) (hash : String) (bytes : List UInt8) :
    Attempt IngestError FileOutcome := do
  match decode? bytes with
  | none => throw (.notUtf8 path)
  | some cs =>
    let content := String.ofList cs
    match chunks g.limits content with
    | [] => throw (.emptyDocument path)
    | pieces => do
      let lastModified ← (Work.modified path : Work (Option Instant))
      let now ← (Work.now : Work Instant)
      g.write (documentOf path content hash bytes.length lastModified now) pieces

/-- Ingest a file. -/
def processFile (g : Ingestor) (path : Path) : Attempt IngestError FileOutcome := do
  let bytes ← (Work.read path).orFail (.read path)
  let hash := Sha256.hexDigest bytes
  let known : Option String ← stored (.documentHash (Path.text path))
  if known = some hash then return .skipped
  else g.processBytes path hash bytes

end Ingestor

/-! ## All files -/

/-- How the files of a pass ended. -/
structure IngestReport where
  /-- files whose chunks were written -/
  processed : Nat := 0
  /-- files that are unchanged -/
  skipped : Nat := 0
  /-- files that failed -/
  failed : Nat := 0
  /-- chunks that were written for the processed files -/
  chunksWritten : Nat := 0
deriving DecidableEq, Repr, Inhabited

/-- A report with one more file. -/
def IngestReport.record (r : IngestReport) : Except IngestError FileOutcome → IngestReport
  | .ok (.processed n) =>
    { r with processed := r.processed + 1, chunksWritten := r.chunksWritten + n }
  | .ok .skipped => { r with skipped := r.skipped + 1 }
  | .error _ => { r with failed := r.failed + 1 }

namespace Ingestor

/-- Ingest files one after the other. -/
def processFiles (g : Ingestor) (r : IngestReport) : List Path → Work IngestReport
  | [] => return r
  | p :: ps => do
    let outcome ← (g.processFile p).run
    g.processFiles (r.record outcome) ps

/-- Ingest every file that counts. -/
def processAll (g : Ingestor) : Work (Except ScanError IngestReport) := do
  match ← Work.scan g.scanner with
  | .error e => return .error e
  | .ok paths => return .ok (← g.processFiles {} paths)

end Ingestor

end MarkdownIndex
