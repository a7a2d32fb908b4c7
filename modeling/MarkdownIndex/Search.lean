import MarkdownIndex.Config
import MarkdownIndex.Search.Merge
import MarkdownIndex.Work

/-!
# Search: by meaning, by words, or both

* `SearchMode` — how a query is compared with chunks.
* `SearchError` — why a search has no hits to show. Blank queries and limits out of range are
  refused before anything is asked for.
* `SearchService` — the bounds of a configuration.
* `SearchService.search` — the hits of a query. A semantic search embeds the query and keeps to the
  similarity floor; a full-text search leaves the ranking to the store; a hybrid search asks for
  both without a floor and joins the answers.
-/

namespace MarkdownIndex

open Text

/-! ## Modes -/

/-- How a query is compared with chunks. -/
inductive SearchMode where
  /-- by the vectors of query and chunk -/
  | semantic
  /-- by the words of query and chunk -/
  | fulltext
  /-- by both -/
  | hybrid
deriving DecidableEq, Repr

/-- The name of a mode. -/
def SearchMode.name : SearchMode → String
  | .semantic => "semantic"
  | .fulltext => "fulltext"
  | .hybrid => "hybrid"

/-- The mode with a name. -/
def SearchMode.ofName? : String → Option SearchMode
  | "semantic" => some .semantic
  | "fulltext" => some .fulltext
  | "hybrid" => some .hybrid
  | _ => none

/-! ## Errors -/

/-- Why a search has no hits to show. -/
inductive SearchError where
  /-- there is no such mode -/
  | unknownMode (name : String)
  /-- the query is blank -/
  | blankQuery
  /-- more hits are wanted than can be, or none -/
  | limitOutOfRange (greatest : Int)
  /-- the query got no vector -/
  | embedding (reason : EmbeddingError)
  /-- the store failed -/
  | store (reason : Failure)
deriving DecidableEq, Repr

/-- The wording of an error. -/
def SearchError.message : SearchError → String
  | .unknownMode name =>
    "Unknown search mode: " ++ name ++ ". Use semantic, fulltext, or hybrid."
  | .blankQuery => "query must not be empty"
  | .limitOutOfRange greatest => "limit must be between 1 and " ++ toString greatest
  | .embedding reason => "Failed to generate embedding: " ++ reason.message
  | .store reason => "Search failed: " ++ reason.message

/-- The mode that a caller named. -/
def SearchMode.parse (name : String) : Except SearchError SearchMode :=
  match SearchMode.ofName? name with
  | some mode => .ok mode
  | none => .error (.unknownMode name)

/-! ## Searching -/

/-- The bounds of a search. -/
structure SearchService where
  /-- the least similarity of a semantic hit -/
  similarityThreshold : Float
  /-- hits that are shown when no number is asked for -/
  defaultLimit : Int
  /-- the greatest number that can be asked for -/
  maxLimit : Int

namespace SearchService

/-- The bounds of a configuration. -/
def ofConfig (c : Config.Search) : SearchService :=
  ⟨c.similarityThreshold, c.defaultLimit, c.maxLimit⟩

/-- Refuse a blank query and a limit out of range. -/
def validate (s : SearchService) (query : String) (limit : Int) : Except SearchError Unit :=
  if isBlankText query.toList then .error .blankQuery
  else if 1 ≤ limit ∧ limit ≤ s.maxLimit then .ok ()
  else .error (.limitOutOfRange s.maxLimit)

/-- An answer of the store, without which a search fails. -/
def stored (c : Store.Call) : Attempt SearchError (Store.Answer c) :=
  (Work.store c).orFail .store

/-- The vector of a query, without which a search fails. -/
def vectorOf (query : String) : Attempt SearchError Embedding :=
  (embedQuery query).orFail .embedding

/-- The chunks nearest to a query, down to the floor. -/
def semantic (s : SearchService) (query : String) (limit : Int) :
    Attempt SearchError (List ScoredChunk) := do
  let v ← vectorOf query
  stored (.semanticSearch v (some s.similarityThreshold) limit)

/-- The best chunks of both searches. -/
def hybrid (query : String) (limit : Int) : Attempt SearchError (List ScoredChunk) := do
  let v ← vectorOf query
  let near ← stored (.semanticSearch v none limit)
  let matching ← stored (.fulltextSearch query limit)
  return Search.merge near matching limit

/-- The chunks that a mode finds. -/
def find (s : SearchService) (mode : SearchMode) (query : String) (limit : Int) :
    Attempt SearchError (List ScoredChunk) :=
  match mode with
  | .semantic => s.semantic query limit
  | .fulltext => stored (.fulltextSearch query limit)
  | .hybrid => hybrid query limit

/-- The hits of a query. -/
def search (s : SearchService) (mode : SearchMode) (query : String) (limit : Int) :
    Attempt SearchError (List SearchHit) := do
  match s.validate query limit with
  | .error e => throw e
  | .ok () =>
    let found ← s.find mode (String.ofList (trim query.toList)) limit
    return found.map ScoredChunk.toHit

end SearchService

end MarkdownIndex
