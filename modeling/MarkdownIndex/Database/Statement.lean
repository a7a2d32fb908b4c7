import MarkdownIndex.Document
import MarkdownIndex.Embedding.Vector
import MarkdownIndex.Program
import MarkdownIndex.Search.Hit
import MarkdownIndex.Store

/-!
# Statements: what is asked of the database

The database has two tables, `documents` and `document_chunks`. Vectors travel as text.

* `Statement` — every statement that is ever run, with its parameters.
* `Statement.Rows`, `ChunkRow` — what each of them gives back.
* `Statement.sql` — its text; parameters are numbered.
* `Database.Call`, `Database.Reply` — connect, or run a statement.
-/

namespace MarkdownIndex

/-! ## Statements -/

/-- A statement with its parameters. -/
inductive Statement where
  /-- nothing but an answer -/
  | ping
  /-- whether the extension for vectors is there -/
  | extension
  /-- the names of the tables that are there -/
  | tables
  /-- the hash of the document with a path -/
  | hash (path : String)
  /-- write a document under its path -/
  | upsert (path title content : String) (metadata : Json)
  /-- forget the hash of a document -/
  | clear (documentId : Int)
  /-- take away the chunks of a document -/
  | delete (documentId : Int)
  /-- add a chunk -/
  | insert (documentId index : Int) (content vector : String) (metadata : Json)
  /-- the chunks nearest to a vector -/
  | semantic (vector : String) (floor : Option Float) (limit : Int)
  /-- the chunks that have every word of a query -/
  | fulltext (query : String) (limit : Int)
  /-- the number of documents -/
  | documents
  /-- when a document was last written -/
  | lastUpdate
  /-- the number of chunks and the words in one on average -/
  | chunkStats

/-- A chunk as the database gives it back. -/
structure ChunkRow where
  /-- key of the chunk -/
  chunkId : Int
  /-- key of its document -/
  documentId : Int
  /-- path of its document -/
  path : String
  /-- title of its document, if it has one -/
  title : Option String
  /-- text of the chunk -/
  content : String
  /-- what is stored beside it -/
  metadata : Option Json
  /-- the score -/
  score : Float

namespace Statement

/-- What a statement gives back. -/
def Rows : Statement → Type
  | .ping => Unit
  | .extension => Bool
  | .tables => List String
  | .hash _ => Option (Option String)
  | .upsert _ _ _ _ => Int
  | .clear _ => Unit
  | .delete _ => Nat
  | .insert _ _ _ _ _ => Unit
  | .semantic _ _ _ => List ChunkRow
  | .fulltext _ _ => List ChunkRow
  | .documents => Int
  | .lastUpdate => Option Instant
  | .chunkStats => Int × Option Float

/-! ## Text -/

/-- The columns of a chunk. -/
def chunkColumns : String :=
  "dc.id::bigint AS chunk_id, d.id::bigint AS document_id, " ++
    "d.file_path, d.title, dc.content, dc.metadata"

/-- The chunks together with their documents. -/
def chunkTables : String :=
  " FROM document_chunks dc JOIN documents d ON dc.document_id = d.id "

/-- The text of a statement. -/
def sql : Statement → String
  | .ping => "SELECT 1"
  | .extension => "SELECT EXISTS(SELECT 1 FROM pg_extension WHERE extname = 'vector')"
  | .tables =>
    "SELECT table_name::text FROM information_schema.tables " ++
      "WHERE table_schema = 'public' AND table_name IN ('documents', 'document_chunks')"
  | .hash _ => "SELECT metadata->>'file_hash' FROM documents WHERE file_path = $1"
  | .upsert _ _ _ _ =>
    "INSERT INTO documents (file_path, title, content, metadata, updated_at) " ++
      "VALUES ($1, $2, $3, $4, NOW()) ON CONFLICT (file_path) DO UPDATE SET " ++
      "title = EXCLUDED.title, content = EXCLUDED.content, metadata = EXCLUDED.metadata, " ++
      "updated_at = NOW() RETURNING id::bigint"
  | .clear _ => "UPDATE documents SET metadata = metadata - 'file_hash' WHERE id = $1"
  | .delete _ => "DELETE FROM document_chunks WHERE document_id = $1"
  | .insert _ _ _ _ _ =>
    "INSERT INTO document_chunks (document_id, chunk_index, content, embedding, metadata) " ++
      "VALUES ($1, $2, $3, $4::vector, $5)"
  | .semantic _ _ _ =>
    "SELECT " ++ chunkColumns ++ ", (1 - (dc.embedding <=> $1::vector))::float8 AS score" ++
      chunkTables ++ "WHERE dc.embedding IS NOT NULL " ++
      "AND ($2::float8 IS NULL OR 1 - (dc.embedding <=> $1::vector) >= $2::float8) " ++
      "ORDER BY dc.embedding <=> $1::vector, dc.id LIMIT $3"
  | .fulltext _ _ =>
    "SELECT " ++ chunkColumns ++
      ", ts_rank(dc.content_tsvector, plainto_tsquery('english', $1))::float8 AS score" ++
      chunkTables ++ "WHERE dc.content_tsvector @@ plainto_tsquery('english', $1) " ++
      "ORDER BY score DESC, dc.id LIMIT $2"
  | .documents => "SELECT COUNT(*) FROM documents"
  | .lastUpdate => "SELECT MAX(updated_at)::timestamptz FROM documents"
  | .chunkStats =>
    "SELECT COUNT(*) AS chunks, " ++
      "AVG(array_length(regexp_split_to_array(content, '\\s+'), 1))::float8 AS avg_words " ++
      "FROM document_chunks"

end Statement

/-! ## The database -/

/-- Why the database did not answer. -/
inductive DatabaseError where
  /-- it refused a statement -/
  | refused (text : String)
  /-- it could not be reached -/
  | unreachable (text : String)
deriving DecidableEq, Repr, Inhabited

/-- The wording of an error. -/
def DatabaseError.message : DatabaseError → String
  | .refused text => "error returned from database: " ++ text
  | .unreachable text => text

/-- The error as a failure of the store. -/
def DatabaseError.toFailure (e : DatabaseError) : Failure := ⟨e.message, []⟩

namespace Database

/-- A request to the database. -/
inductive Call where
  /-- connect to the database at an address with a number of connections -/
  | connect (url : String) (most least : Nat)
  /-- run a statement -/
  | execute (s : Statement)

/-- The answer to a request. -/
def Reply : Call → Type
  | .connect _ _ _ => Except DatabaseError Unit
  | .execute s => Except DatabaseError s.Rows

/-- The database as an interface. -/
def interface : Interface := ⟨Call, Reply⟩

end Database

end MarkdownIndex
