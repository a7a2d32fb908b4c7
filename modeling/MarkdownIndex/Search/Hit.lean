import MarkdownIndex.Chunk.Codec

/-!
# Hits: what a search answers

* `ScoredChunk` — a stored chunk with the score that a query of the store gave it.
* `SearchHit` — what a caller gets of it, under the name `similarity` for the score.
* `SearchResponse` — the answer of the search service: hits, their number, and the query.
* Their JSON; every field of a hit is required.
-/

namespace MarkdownIndex

open Json

/-! ## Records -/

/-- A stored chunk with the score of a query. -/
structure ScoredChunk where
  /-- key of the chunk -/
  chunkId : Int
  /-- key of its document -/
  documentId : Int
  /-- path of its document -/
  path : String
  /-- title of its document -/
  title : String
  /-- text of the chunk -/
  content : String
  /-- header, kind, size and number of chunks -/
  metadata : ChunkMetadata
  /-- the score; greater is better -/
  score : Float
deriving Inhabited

/-- A search hit as callers see it. -/
structure SearchHit where
  /-- path of the document -/
  path : String
  /-- title of the document -/
  title : String
  /-- text of the chunk -/
  content : String
  /-- header, kind, size and number of chunks -/
  metadata : ChunkMetadata
  /-- the score -/
  similarity : Float
deriving Inhabited

/-- The hit that a scored chunk is shown as. -/
def ScoredChunk.toHit (c : ScoredChunk) : SearchHit :=
  ⟨c.path, c.title, c.content, c.metadata, c.score⟩

/-- The answer of the search service. -/
structure SearchResponse where
  /-- the hits, best first -/
  results : List SearchHit
  /-- their number -/
  count : Nat
  /-- the query as it was asked -/
  query : String
deriving Inhabited

/-! ## Writing -/

/-- A hit as JSON. -/
def SearchHit.toJson (h : SearchHit) : Json := .object [
  ("file_path", .string h.path),
  ("title", .string h.title),
  ("content", .string h.content),
  ("metadata", h.metadata.toJson),
  ("similarity", .float h.similarity)]

/-- An answer as JSON. -/
def SearchResponse.toJson (r : SearchResponse) : Json := .object [
  ("results", .array (r.results.map SearchHit.toJson)),
  ("count", .nat r.count),
  ("query", .string r.query)]

/-! ## Reading -/

/-- The fields of a hit, as far as they have been read. -/
structure SearchHit.Draft where
  /-- path of the document -/
  path : Option String := none
  /-- title of the document -/
  title : Option String := none
  /-- text of the chunk -/
  content : Option String := none
  /-- header, kind, size and number of chunks -/
  metadata : Option ChunkMetadata := none
  /-- the score -/
  similarity : Option Float := none

/-- The decoder of a hit. -/
def SearchHit.record : Record Draft SearchHit where
  empty := {}
  names := ["file_path", "title", "content", "metadata", "similarity"]
  field
    | "file_path" => some fun n d => fill text d.path (fun x => { d with path := x }) n
    | "title" => some fun n d => fill text d.title (fun x => { d with title := x }) n
    | "content" => some fun n d => fill text d.content (fun x => { d with content := x }) n
    | "metadata" => some fun n d =>
      fill ChunkMetadata.record.decode d.metadata (fun x => { d with metadata := x }) n
    | "similarity" =>
      some fun n d => fill float64 d.similarity (fun x => { d with similarity := x }) n
    | _ => none
  finish d := do
    return ⟨← require d.path, ← require d.title, ← require d.content, ← require d.metadata,
      ← require d.similarity⟩

/-- The fields of an answer, as far as they have been read. -/
structure SearchResponse.Draft where
  /-- the hits -/
  results : Option (List SearchHit) := none
  /-- their number -/
  count : Option Nat := none
  /-- the query -/
  query : Option String := none

/-- The decoder of an answer. -/
def SearchResponse.record : Record Draft SearchResponse where
  empty := {}
  names := ["results", "count", "query"]
  field
    | "results" => some fun n d =>
      fill (listOf SearchHit.record.decode) d.results (fun x => { d with results := x }) n
    | "count" => some fun n d => fill (natural 64) d.count (fun x => { d with count := x }) n
    | "query" => some fun n d => fill text d.query (fun x => { d with query := x }) n
    | _ => none
  finish d := do
    return ⟨← require d.results, ← require d.count, ← require d.query⟩

end MarkdownIndex
