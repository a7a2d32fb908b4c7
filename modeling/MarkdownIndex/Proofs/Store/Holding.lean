import MarkdownIndex.Proofs.Store.Documents

/-!
# Holdings: what a store holds of a path

A store gives out keys in the order in which documents and chunks come in, so what it holds of one
path cannot be compared between two stores, or with itself at another time, as long as keys are
part of it.

* `Passage` — a stored chunk without its keys; `Memory.passages` — those of a document, in order.
* `Holding`, `Memory.holding` — title, hash and passages of the document with a path.
* `Gains` — a store in which passages have been added to one document, and nothing else.
* `holding_of_touches`, `holding_of_touches_of_ne` and so on — the holdings of a store in which a
  document has been written, with changes to its chunks only.
-/

namespace MarkdownIndex

/-- What is stored of a chunk, without its key and that of its document. -/
structure Passage where
  /-- its text -/
  content : String
  /-- header, kind, size and number of chunks -/
  metadata : ChunkMetadata
  /-- its vector -/
  vector : Embedding

/-- What a store holds of a path. -/
structure Holding where
  /-- the title of its document, if it has one -/
  title : Option String := none
  /-- the hash of its document -/
  hash : Option String := none
  /-- the chunks of its document, in order -/
  passages : List Passage := []

/-- A stored chunk without its keys. -/
def StoredChunk.passage (c : StoredChunk) : Passage := ⟨c.content, c.metadata, c.vector⟩

/-- What will be stored of a chunk with a vector. -/
def Chunk.passage (c : Chunk) (v : Embedding) : Passage := ⟨c.content, c.metadata, v⟩

namespace Memory

variable {s s₁ s' : Memory} {d : NewDocument} {e : StoredDocument} {now : Instant} {id : Int}
variable {path q : String} {ps qs : List Passage}

/-- The passages of a document, in the order of their keys. -/
def passages (s : Memory) (id : Int) : List Passage :=
  (s.chunksOf id).map StoredChunk.passage

/-- What a store holds of a path. -/
def holding (s : Memory) (path : String) : Holding :=
  match s.document? path with
  | some d => ⟨some d.title, d.metadata.fileHash, s.passages d.id⟩
  | none => {}

theorem holding_of_document? (h : s.document? path = some e) :
    s.holding path = ⟨some e.title, e.metadata.fileHash, s.passages e.id⟩ := by
  rw [holding, h]

theorem holding_of_none (h : s.document? path = none) : s.holding path = {} := by
  rw [holding, h]

theorem hash_holding (s : Memory) (path : String) : (s.holding path).hash = s.hash? path := by
  rw [hash?]
  cases h : s.document? path with
  | none => rw [holding_of_none h, Option.bind_none]
  | some e => rw [holding_of_document? h, Option.bind_some]

theorem chunkCount_eq (s : Memory) (path : String) :
    s.chunkCount path = (s.holding path).passages.length := by
  rw [chunkCount]
  cases h : s.document? path with
  | none => rw [holding_of_none h, List.length_nil]
  | some e => rw [holding_of_document? h, passages, List.length_map]

/-- The same document with the same chunks is the same holding. -/
theorem holding_congr (hdocument : s'.document? path = s.document? path)
    (hchunks : ∀ e, s.document? path = some e → s'.chunksOf e.id = s.chunksOf e.id) :
    s'.holding path = s.holding path := by
  cases h : s.document? path with
  | none => rw [holding_of_none (hdocument.trans h), holding_of_none h]
  | some e =>
    rw [holding_of_document? (hdocument.trans h), holding_of_document? h, passages, passages,
      hchunks e h]

/-! ## Adding passages -/

/-- Passages have been added to a document, and nothing else has changed. -/
structure Gains (id : Int) (ps : List Passage) (s s' : Memory) : Prop where
  /-- nothing else has changed -/
  touches : Touches id s s'
  /-- the passages come after those that were there -/
  passages_eq : s'.passages id = s.passages id ++ ps

theorem gains_nil (s : Memory) : Gains id [] s s where
  touches := Touches.refl s
  passages_eq := (List.append_nil _).symm

theorem Gains.append (h : Gains id ps s s₁) (h' : Gains id qs s₁ s') :
    Gains id (ps ++ qs) s s' where
  touches := h.touches.trans h'.touches
  passages_eq := by rw [h'.passages_eq, h.passages_eq, List.append_assoc]

theorem gains_insertChunk (c : Chunk) (v : Embedding) :
    Gains id [c.passage v] s (s.insertChunk id c v) where
  touches := touches_insertChunk c v
  passages_eq := by
    rw [passages, chunksOf_insertChunk, if_pos rfl, List.map_append, ← passages]
    rfl

theorem passages_deleteChunks : (s.deleteChunks id).2.passages id = [] := by
  rw [passages, chunksOf_deleteChunks, if_pos rfl, List.map_nil]

/-! ## Clearing a hash -/

theorem holding_clearHash_of_id (hs : s.WellFormed) (he : s.document? path = some e)
    (hid : e.id = id) : (s.clearHash id).holding path = { s.holding path with hash := none } := by
  rw [holding_of_document? (document?_clearHash_of_id hs he hid), holding_of_document? he]
  rfl

theorem holding_clearHash_of_ne (hs : s.WellFormed)
    (hne : ∀ e, s.document? path = some e → e.id ≠ id) :
    (s.clearHash id).holding path = s.holding path :=
  holding_congr (document?_clearHash_of_ne hs hne) fun _ _ => chunksOf_clearHash _

/-! ## Writing a document -/

section Written

variable (hs : s.WellFormed) (h : Touches (s.upsert d now).1 (s.upsert d now).2 s')
include hs h

/-- A document that has been written is there, whatever happens to its chunks. -/
theorem document?_of_touches : s'.document? d.path = some (s.writtenDocument d now) := by
  rw [document?_congr h.documents_eq, document?_upsert_self hs]

theorem holding_of_touches :
    s'.holding d.path = ⟨some d.title, d.metadata.fileHash, s'.passages (s.upsert d now).1⟩ :=
  holding_of_document? (document?_of_touches hs h)

/-- Writing a document and its chunks leaves what is held of other paths. -/
theorem holding_of_touches_of_ne (hne : q ≠ d.path) : s'.holding q = s.holding q := by
  refine holding_congr ?_ fun e he => ?_
  · rw [document?_congr h.documents_eq, document?_upsert_of_ne hs hne]
  · obtain ⟨hmem, rfl⟩ := mem_of_document? he
    rw [h.chunksOf_eq e.id (id_ne_of_path_ne hs hmem hne), chunksOf_upsert]

/-- A document whose hash is cleared after it has been written with its chunks. -/
theorem holding_of_touches_clearHash (hs' : s'.WellFormed) :
    (s'.clearHash (s.upsert d now).1).holding d.path =
      ⟨some d.title, none, s'.passages (s.upsert d now).1⟩ := by
  have hkey : (s.writtenDocument d now).id = (s.upsert d now).1 := rfl
  rw [holding_clearHash_of_id hs' (document?_of_touches hs h) hkey, holding_of_touches hs h]

theorem holding_of_touches_clearHash_of_ne (hs' : s'.WellFormed) (hne : q ≠ d.path) :
    (s'.clearHash (s.upsert d now).1).holding q = s.holding q := by
  rw [holding_clearHash_of_ne hs', holding_of_touches_of_ne hs h hne]
  -- only the document that has been written has the key that is cleared
  intro e he hid
  obtain ⟨hmem, rfl⟩ := mem_of_document? he
  obtain ⟨hwritten, -⟩ := mem_of_document? (document?_of_touches hs h)
  exact hne (congrArg StoredDocument.path (hs'.eq_of_id hmem hwritten hid))

end Written

end Memory

end MarkdownIndex
