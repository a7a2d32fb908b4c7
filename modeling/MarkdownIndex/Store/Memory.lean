import MarkdownIndex.Search.Rank
import MarkdownIndex.Store
import MarkdownIndex.Text.Token

/-!
# A store in memory

Documents and chunks as two lists. Semantic search compares the query with every vector; full-text
search wants every word of the query and scores a chunk by how much of it the words make up.

* `StoredDocument`, `StoredChunk`, `Memory` — the store as a value. Keys of documents and keys of
  chunks are counted, each by a counter of its own, so that none is given out twice.
* One function for each request: `hash?`, `upsert`, `clearHash`, `deleteChunks`, `insertChunk`,
  `semanticSearch`, `fulltextSearch`, `stats`.
* `Memory.perform` — all requests at once: the answer and the store after it.
-/

namespace MarkdownIndex

open Text

/-! ## Contents -/

/-- A document in the store. -/
structure StoredDocument where
  /-- its key -/
  id : Int
  /-- its path, which no other document has -/
  path : String
  /-- what it is called -/
  title : String
  /-- bookkeeping -/
  metadata : DocumentMetadata
  /-- when it was last written -/
  updatedAt : Instant
deriving Inhabited

/-- A chunk in the store. -/
structure StoredChunk where
  /-- its key -/
  id : Int
  /-- the key of its document -/
  documentId : Int
  /-- its text -/
  content : String
  /-- header, kind, size and number of chunks -/
  metadata : ChunkMetadata
  /-- its vector -/
  vector : Embedding
deriving Inhabited

/-- A store in memory. -/
structure Memory where
  /-- the documents, in the order of their keys -/
  documents : List StoredDocument := []
  /-- the chunks, in the order of their keys -/
  chunks : List StoredChunk := []
  /-- the last key that a document has been given -/
  documentKey : Int := 0
  /-- the last key that a chunk has been given -/
  chunkKey : Int := 0
  /-- the number of chunks that have been added so far -/
  chunkInserts : Nat := 0
deriving Inhabited

namespace Memory

/-! ## Documents -/

/-- The document with a path. -/
def document? (s : Memory) (path : String) : Option StoredDocument :=
  s.documents.find? (·.path == path)

/-- The hash recorded for a path. -/
def hash? (s : Memory) (path : String) : Option String :=
  (s.document? path).bind (·.metadata.fileHash)

/-- The title recorded for a path. -/
def title? (s : Memory) (path : String) : Option String :=
  (s.document? path).map (·.title)

/-- The chunks of a document. -/
def chunksOf (s : Memory) (documentId : Int) : List StoredChunk :=
  s.chunks.filter (·.documentId == documentId)

/-- The number of chunks of the document with a path. -/
def chunkCount (s : Memory) (path : String) : Nat :=
  match s.document? path with
  | some d => (s.chunksOf d.id).length
  | none => 0

/-- Write a document: the key it has or gets, and the store after it. -/
def upsert (s : Memory) (d : NewDocument) (now : Instant) : Int × Memory :=
  match s.document? d.path with
  | some old =>
    let write (e : StoredDocument) : StoredDocument :=
      if e.path = d.path then { e with title := d.title, metadata := d.metadata, updatedAt := now }
      else e
    (old.id, { s with documents := s.documents.map write })
  | none =>
    let id := s.documentKey + 1
    (id, { s with
      documents := s.documents ++ [⟨id, d.path, d.title, d.metadata, now⟩]
      documentKey := id })

/-- Forget the hash of a document. -/
def clearHash (s : Memory) (documentId : Int) : Memory :=
  let clear (e : StoredDocument) : StoredDocument :=
    if e.id = documentId then { e with metadata := { e.metadata with fileHash := none } } else e
  { s with documents := s.documents.map clear }

/-! ## Chunks -/

/-- Take away the chunks of a document: their number, and the store after it. -/
def deleteChunks (s : Memory) (documentId : Int) : Nat × Memory :=
  let kept := s.chunks.filter (·.documentId != documentId)
  (s.chunks.length - kept.length, { s with chunks := kept })

/-- Add a chunk. -/
def insertChunk (s : Memory) (documentId : Int) (c : Chunk) (v : Embedding) : Memory :=
  let id := s.chunkKey + 1
  { s with
    chunks := s.chunks ++ [⟨id, documentId, c.content, c.metadata, v⟩]
    chunkKey := id
    chunkInserts := s.chunkInserts + 1 }

/-! ## Searches -/

/-- A chunk with a score, and path and title of its document; both are empty if it has none. -/
def scored (s : Memory) (c : StoredChunk) (score : Float) : ScoredChunk :=
  let d := s.documents.find? (·.id == c.documentId)
  ⟨c.id, c.documentId, (d.map (·.path)).getD "", (d.map (·.title)).getD "", c.content,
    c.metadata, score⟩

/-- The similarity of a chunk to a query; none for a chunk without a vector or below the floor. -/
def similarity? (query : Embedding) (floor : Option Float) (c : StoredChunk) : Option Float :=
  if c.vector.isEmpty then none
  else
    let similarity := (Embedding.cosine query c.vector).toFloat
    match floor with
    | none => some similarity
    | some f => if f ≤ similarity then some similarity else none

/-- The chunks nearest to a vector. -/
def semanticSearch (s : Memory) (query : Embedding) (floor : Option Float) (limit : Int) :
    List ScoredChunk :=
  Search.top limit (s.chunks.filterMap fun c => (similarity? query floor c).map (s.scored c))

/-- How often the words of a query occur among words, once for each word of the query; none if one
of them does not. -/
def occurrences? (words : List (List Char)) : List (List Char) → Option Nat
  | [] => some 0
  | t :: ts =>
    let n := words.count t
    if n = 0 then none else (occurrences? words ts).map (n + ·)

/-- The score of a text for the words of a query: their occurrences among its words. -/
def relevance? (terms : List (List Char)) (content : String) : Option Float :=
  let words := tokens content.toList
  (occurrences? words terms).map fun n => n.toUInt64.toFloat / words.length.toUInt64.toFloat

/-- The chunks that have every word of a query; none for a query without words. -/
def fulltextSearch (s : Memory) (query : String) (limit : Int) : List ScoredChunk :=
  let terms := tokens query.toList
  if terms.isEmpty then []
  else
    Search.top limit
      (s.chunks.filterMap fun c => (relevance? terms c.content).map (s.scored c))

/-! ## Counts -/

/-- The latest of some instants. -/
def latest (ts : List Instant) : Option Instant :=
  ts.foldl (fun best t => some (match best with
    | none => t
    | some b => max b t)) none

/-- Counts over the store. -/
def stats (s : Memory) : StoreStats where
  documents := s.documents.length
  chunks := s.chunks.length
  lastUpdate := latest (s.documents.map (·.updatedAt))
  averageWords :=
    if s.chunks.isEmpty then none
    else
      let total := (s.chunks.flatMap fun c => words c.content.toList).length
      some (total.toUInt64.toFloat / s.chunks.length.toUInt64.toFloat)

/-! ## All requests -/

/-- Answer a request at an instant: the answer and the store after it. -/
def perform (now : Instant) (s : Memory) : (c : Store.Call) → Store.Answer c × Memory
  | .documentHash path => (s.hash? path, s)
  | .upsertDocument d => s.upsert d now
  | .clearDocumentHash id => ((), s.clearHash id)
  | .deleteChunks id => s.deleteChunks id
  | .insertChunk id c v => ((), s.insertChunk id c v)
  | .semanticSearch q floor limit => (s.semanticSearch q floor limit, s)
  | .fulltextSearch q limit => (s.fulltextSearch q limit, s)
  | .stats => (s.stats, s)
  | .ping => ((), s)

end Memory

end MarkdownIndex
