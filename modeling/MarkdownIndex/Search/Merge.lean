import MarkdownIndex.Search.Rank

/-!
# Hybrid ranking: two searches joined

Candidates of a semantic and a full-text search are joined on the key of the chunk. The score is
seven tenths of the semantic score and three tenths of the full-text score; a missing one counts as
zero.

* `Candidate` — a chunk with its score on either side.
* `join` — all candidates, in the order in which they came up first. A later semantic candidate
  takes the place of an earlier one; a full-text candidate only adds its score to a chunk that is
  there.
* `merge` — the best of them.
-/

namespace MarkdownIndex.Search

/-- The weight of the semantic score. -/
def semanticWeight : Float := 0.7

/-- The weight of the full-text score. -/
def fulltextWeight : Float := 0.3

/-- A chunk with its score on either side. -/
structure Candidate where
  /-- the chunk -/
  chunk : ScoredChunk
  /-- its semantic score -/
  semantic : Float
  /-- its full-text score -/
  fulltext : Float
deriving Inhabited

/-- Change the candidate with a key, or add one at the end if there is none. -/
def alter (key : Int) (change : Candidate → Candidate) (new : Candidate) :
    List Candidate → List Candidate
  | [] => [new]
  | c :: cs =>
    if c.chunk.chunkId = key then change c :: cs else c :: alter key change new cs

/-- Candidates with one of a semantic search added. -/
def addSemantic (cs : List Candidate) (c : ScoredChunk) : List Candidate :=
  alter c.chunkId (fun _ => ⟨c, c.score, 0⟩) ⟨c, c.score, 0⟩ cs

/-- Candidates with one of a full-text search added. -/
def addFulltext (cs : List Candidate) (c : ScoredChunk) : List Candidate :=
  alter c.chunkId (fun d => { d with fulltext := c.score }) ⟨c, 0, c.score⟩ cs

/-- The candidates of two searches. -/
def join (semantic fulltext : List ScoredChunk) : List Candidate :=
  fulltext.foldl addFulltext (semantic.foldl addSemantic [])

/-- A candidate with its combined score. -/
def Candidate.scored (c : Candidate) : ScoredChunk :=
  { c.chunk with score := semanticWeight * c.semantic + fulltextWeight * c.fulltext }

/-- The best candidates of two searches. -/
def merge (semantic fulltext : List ScoredChunk) (limit : Int) : List ScoredChunk :=
  top limit ((join semantic fulltext).map Candidate.scored)

end MarkdownIndex.Search
