import MarkdownIndex.Document
import MarkdownIndex.Embedding.Vector
import MarkdownIndex.Program
import MarkdownIndex.Search.Hit
import MarkdownIndex.Time

/-!
# The store: what is asked of it

Everything that ingestion, search and health reports want of a store. A store may be a database or
a value in memory; which one it is cannot be seen from here.

* `Failure` — why a store did not answer: what was attempted, and the reasons below.
* `StoreStats` — counts over the whole store.
* `Store.Call`, `Store.Reply` — the requests and their answers. A document is known by its path
  until it has been written, and by its key from then on.
-/

namespace MarkdownIndex

/-! ## Answers -/

/-- Why a store did not answer. -/
structure Failure where
  /-- what was attempted, or what went wrong -/
  message : String
  /-- the reasons, the nearest first -/
  causes : List String := []
deriving DecidableEq, Repr, Inhabited

/-- A failure as the reason of another. -/
def Failure.context (f : Failure) (message : String) : Failure :=
  ⟨message, f.message :: f.causes⟩

/-- Counts over a store. -/
structure StoreStats where
  /-- the number of documents -/
  documents : Int := 0
  /-- the number of chunks -/
  chunks : Int := 0
  /-- when a document was last written -/
  lastUpdate : Option Instant := none
  /-- words in a chunk, on average; none without chunks -/
  averageWords : Option Float := none
deriving Inhabited

/-! ## Requests -/

namespace Store

/-- A request to a store. -/
inductive Call where
  /-- the hash recorded for a path -/
  | documentHash (path : String)
  /-- write a document under its path: a new one, or in place of the one that is there -/
  | upsertDocument (document : NewDocument)
  /-- forget the hash of a document, so that its file counts as changed -/
  | clearDocumentHash (documentId : Int)
  /-- take away all chunks of a document -/
  | deleteChunks (documentId : Int)
  /-- add a chunk with its vector -/
  | insertChunk (documentId : Int) (chunk : Chunk) (vector : Embedding)
  /-- the chunks nearest to a vector, those below a floor left out -/
  | semanticSearch (query : Embedding) (floor : Option Float) (limit : Int)
  /-- the chunks that have every word of a query -/
  | fulltextSearch (query : String) (limit : Int)
  /-- counts over the store -/
  | stats
  /-- whether the store can be reached -/
  | ping
deriving Inhabited

/-- The type of the answer to a request that succeeds. -/
def Answer : Call → Type
  | .documentHash _ => Option String
  | .upsertDocument _ => Int
  | .clearDocumentHash _ => Unit
  | .deleteChunks _ => Nat
  | .insertChunk _ _ _ => Unit
  | .semanticSearch _ _ _ => List ScoredChunk
  | .fulltextSearch _ _ => List ScoredChunk
  | .stats => StoreStats
  | .ping => Unit

/-- The answer to a request. -/
abbrev Reply (c : Call) : Type := Except Failure (Answer c)

/-- The store as an interface. -/
def interface : Interface := ⟨Call, Reply⟩

end Store

end MarkdownIndex
