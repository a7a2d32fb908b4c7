import Mathlib.Data.List.Nodup
import MarkdownIndex.Store.Memory

/-!
# The store in memory: what requests do to documents and rows

* `WellFormed` — keys and paths tell documents apart, and keys of chunks grow. `WellFormed.perform`
  says that every request keeps it so.
* `mem_documents_upsert`, `mem_documents_clearHash` — the documents after a request that writes one.
* `chunksOf_insertChunk`, `chunksOf_deleteChunks` — the chunks of each document after a request that
  changes chunks.
* `rows` — what is stored of the chunks of a document, without keys and vectors.
* `Touches` — a store that differs from another in the chunks of one document only.
-/

namespace MarkdownIndex

namespace Memory

variable {s s' : Memory} {e : StoredDocument} {d : NewDocument} {now : Instant} {id : Int}

/-! ## Well-formed stores -/

/-- What every store is like that has been filled by requests. -/
structure WellFormed (s : Memory) : Prop where
  /-- the key of a document is its place, from one -/
  ids : s.documents.map (·.id) = (List.range s.documents.length).map fun i : Nat => (i : Int) + 1
  /-- as many keys have been given to documents as there are documents -/
  counted : s.documentKey = s.documents.length
  /-- no two documents have the same path -/
  paths : (s.documents.map (·.path)).Nodup
  /-- chunks are in the order of their keys -/
  increasing : s.chunks.Pairwise fun b c => b.id < c.id
  /-- no key of a chunk is greater than the last one that has been given -/
  bounded : ∀ c ∈ s.chunks, c.id ≤ s.chunkKey

theorem wellFormed_empty : WellFormed {} where
  ids := rfl
  counted := rfl
  paths := List.nodup_nil
  increasing := List.Pairwise.nil
  bounded := fun _ hc => absurd hc List.not_mem_nil

theorem WellFormed.nodup_ids (hs : s.WellFormed) : (s.documents.map (·.id)).Nodup := by
  rw [hs.ids]
  refine List.nodup_range.map fun i j hij => ?_
  have hcast : (i : Int) + 1 = (j : Int) + 1 := hij
  omega

theorem WellFormed.id_le (hs : s.WellFormed) (he : e ∈ s.documents) :
    e.id ≤ s.documents.length := by
  have hid : e.id ∈ s.documents.map (·.id) := List.mem_map_of_mem he
  rw [hs.ids] at hid
  obtain ⟨i, hi, heq⟩ := List.mem_map.mp hid
  have hlt := List.mem_range.mp hi
  omega

/-- A key belongs to one document. -/
theorem WellFormed.eq_of_id (hs : s.WellFormed) {e f : StoredDocument} (he : e ∈ s.documents)
    (hf : f ∈ s.documents) (h : e.id = f.id) : e = f :=
  List.inj_on_of_nodup_map hs.nodup_ids he hf h

/-- A path belongs to one document. -/
theorem WellFormed.eq_of_path (hs : s.WellFormed) {e f : StoredDocument} (he : e ∈ s.documents)
    (hf : f ∈ s.documents) (h : e.path = f.path) : e = f :=
  List.inj_on_of_nodup_map hs.paths he hf h

/-- The chunks of a document are in the order of their keys. -/
theorem WellFormed.increasing_chunksOf (hs : s.WellFormed) (id : Int) :
    (s.chunksOf id).Pairwise fun b c => b.id < c.id :=
  hs.increasing.filter _

/-! ## Documents -/

theorem mem_of_document? {path : String} (h : s.document? path = some e) :
    e ∈ s.documents ∧ e.path = path := by
  rw [document?] at h
  have hpath := List.find?_some h
  exact ⟨List.mem_of_find?_eq_some h, eq_of_beq hpath⟩

theorem path_ne_of_document? {path : String} (h : s.document? path = none) (he : e ∈ s.documents) :
    e.path ≠ path :=
  fun heq => List.find?_eq_none.mp h e he (beq_iff_eq.mpr heq)

/-- The document that a request writes. -/
def writtenDocument (s : Memory) (d : NewDocument) (now : Instant) : StoredDocument :=
  ⟨(s.upsert d now).1, d.path, d.title, d.metadata, now⟩

/-- Writing a document puts it in the place of the one with its path, and leaves the others. -/
theorem mem_documents_upsert (hs : s.WellFormed) :
    e ∈ (s.upsert d now).2.documents ↔
      e = s.writtenDocument d now ∨ e ∈ s.documents ∧ e.path ≠ d.path := by
  rcases hd : s.document? d.path with _ | old
  · simp only [upsert, writtenDocument, hd, List.mem_append, List.mem_singleton]
    constructor
    · rintro (he | rfl)
      · exact Or.inr ⟨he, path_ne_of_document? hd he⟩
      · exact Or.inl rfl
    · rintro (rfl | ⟨he, -⟩)
      · exact Or.inr rfl
      · exact Or.inl he
  · obtain ⟨hold, hpath⟩ := mem_of_document? hd
    simp only [upsert, writtenDocument, hd, List.mem_map]
    -- paths are told apart, so the document that is written over is the only one with its path
    constructor
    · rintro ⟨f, hf, rfl⟩
      split
      · rename_i hfd
        obtain rfl := hs.eq_of_path hf hold (hfd.trans hpath.symm)
        exact Or.inl (by rw [hfd])
      · rename_i hfd
        exact Or.inr ⟨hf, hfd⟩
    · rintro (rfl | ⟨he, hne⟩)
      · exact ⟨old, hold, by rw [if_pos hpath, hpath]⟩
      · exact ⟨e, he, if_neg hne⟩

/-- The key of a document that is written is no key of another path. -/
theorem id_ne_of_path_ne (hs : s.WellFormed) (he : e ∈ s.documents) (hne : e.path ≠ d.path) :
    e.id ≠ (s.upsert d now).1 := by
  intro hid
  -- a new key is greater than all there are, and an old one belongs to the old document
  rcases hd : s.document? d.path with _ | old
  · simp only [upsert, hd, hs.counted] at hid
    have hle := hs.id_le he
    omega
  · obtain ⟨hold, hpath⟩ := mem_of_document? hd
    simp only [upsert, hd] at hid
    exact hne (hs.eq_of_id he hold hid ▸ hpath)

@[simp] theorem chunks_upsert : (s.upsert d now).2.chunks = s.chunks := by
  rw [upsert]
  split
  · rfl
  · rfl

@[simp] theorem chunkKey_upsert : (s.upsert d now).2.chunkKey = s.chunkKey := by
  rw [upsert]
  split
  · rfl
  · rfl

@[simp] theorem chunksOf_upsert (j : Int) : (s.upsert d now).2.chunksOf j = s.chunksOf j := by
  rw [chunksOf, chunks_upsert, chunksOf]

/-- Clearing a hash leaves the other documents. -/
theorem mem_documents_clearHash :
    e ∈ (s.clearHash id).documents ↔
      (e ∈ s.documents ∧ e.id ≠ id) ∨ ∃ f ∈ s.documents, f.id = id ∧
        e = { f with metadata := { f.metadata with fileHash := none } } := by
  simp only [clearHash, List.mem_map]
  constructor
  · rintro ⟨f, hf, rfl⟩
    split
    · rename_i hid
      exact Or.inr ⟨f, hf, hid, rfl⟩
    · rename_i hid
      exact Or.inl ⟨hf, hid⟩
  · rintro (⟨he, hid⟩ | ⟨f, hf, hid, rfl⟩)
    · exact ⟨e, he, if_neg hid⟩
    · exact ⟨f, hf, if_pos hid⟩

/-- What does not depend on the bookkeeping of documents stays when a hash is cleared. -/
theorem map_documents_clearHash {α : Type} {f : StoredDocument → α}
    (hf : ∀ (e : StoredDocument) (m : DocumentMetadata), f { e with metadata := m } = f e) :
    (s.clearHash id).documents.map f = s.documents.map f := by
  rw [clearHash, List.map_map]
  refine List.map_congr_left fun e _ => ?_
  rw [Function.comp_apply]
  split
  · exact hf e _
  · rfl

@[simp] theorem chunksOf_clearHash (j : Int) : (s.clearHash id).chunksOf j = s.chunksOf j := rfl

/-! ## Chunks -/

theorem chunksOf_insertChunk (c : Chunk) (v : Embedding) (j : Int) :
    (s.insertChunk id c v).chunksOf j =
      if j = id then s.chunksOf j ++ [⟨s.chunkKey + 1, id, c.content, c.metadata, v⟩]
      else s.chunksOf j := by
  simp only [chunksOf, insertChunk, List.filter_append]
  split
  · rename_i hj
    rw [List.filter_singleton, hj, beq_self_eq_true]
    rfl
  · rename_i hj
    rw [List.filter_singleton, beq_false_of_ne (Ne.symm hj)]
    exact List.append_nil _

theorem chunksOf_deleteChunks (j : Int) :
    (s.deleteChunks id).2.chunksOf j = if j = id then [] else s.chunksOf j := by
  simp only [chunksOf, deleteChunks, List.filter_filter]
  split
  · rename_i hj
    refine List.filter_eq_nil_iff.mpr fun c _ hc => ?_
    rw [Bool.and_eq_true, beq_iff_eq, bne_iff_ne] at hc
    exact hc.2 (hc.1.trans hj)
  · rename_i hj
    refine List.filter_congr fun c _ => ?_
    rcases eq_or_ne c.documentId j with rfl | hne
    · rw [beq_self_eq_true, Bool.true_and, bne_iff_ne]
      exact hj
    · rw [beq_false_of_ne hne, Bool.false_and]

/-- As many chunks are taken away as a document has. -/
theorem fst_deleteChunks : (s.deleteChunks id).1 = (s.chunksOf id).length := by
  have hsplit := List.length_eq_length_filter_add (l := s.chunks) (·.documentId == id)
  simp only [deleteChunks, chunksOf, bne]
  omega

/-! ## Every request keeps a store well-formed -/

theorem WellFormed.upsert (hs : s.WellFormed) : (s.upsert d now).2.WellFormed := by
  refine ⟨?_, ?_, ?_, ?_, ?_⟩
  · rcases hd : s.document? d.path with _ | old
    · simp only [Memory.upsert, hd, List.map_append, hs.ids, hs.counted, List.length_append,
        List.range_succ, List.length_singleton, List.map_cons, List.map_nil]
    · simp only [Memory.upsert, hd, List.map_map, List.length_map]
      rw [← hs.ids]
      refine List.map_congr_left fun e _ => ?_
      rw [Function.comp_apply]
      split
      · rfl
      · rfl
  · rcases hd : s.document? d.path with _ | old
    · simp only [Memory.upsert, hd, hs.counted, List.length_append, List.length_singleton,
        Int.natCast_add, Int.natCast_one]
    · simp only [Memory.upsert, hd, hs.counted, List.length_map]
  · rcases hd : s.document? d.path with _ | old
    · simp only [Memory.upsert, hd, List.map_append, List.map_cons, List.map_nil]
      refine List.nodup_append.mpr ⟨hs.paths, List.nodup_singleton _, ?_⟩
      intro p hp q hq
      obtain ⟨e, he, rfl⟩ := List.mem_map.mp hp
      rw [List.mem_singleton.mp hq]
      exact path_ne_of_document? hd he
    · have hpaths : (s.upsert d now).2.documents.map (·.path) = s.documents.map (·.path) := by
        simp only [Memory.upsert, hd, List.map_map]
        refine List.map_congr_left fun e _ => ?_
        rw [Function.comp_apply]
        split
        · rfl
        · rfl
      rw [hpaths]
      exact hs.paths
  · rw [chunks_upsert]
    exact hs.increasing
  · rw [chunks_upsert, chunkKey_upsert]
    exact hs.bounded

theorem WellFormed.clearHash (hs : s.WellFormed) (id : Int) : (s.clearHash id).WellFormed := by
  refine ⟨?_, ?_, ?_, hs.increasing, hs.bounded⟩
  · rw [map_documents_clearHash fun _ _ => rfl, hs.ids, Memory.clearHash, List.length_map]
  · simp only [Memory.clearHash, hs.counted, List.length_map]
  · rw [map_documents_clearHash fun _ _ => rfl]
    exact hs.paths

theorem WellFormed.deleteChunks (hs : s.WellFormed) (id : Int) :
    (s.deleteChunks id).2.WellFormed where
  ids := hs.ids
  counted := hs.counted
  paths := hs.paths
  increasing := hs.increasing.filter _
  bounded := fun c hc => hs.bounded c (List.mem_of_mem_filter hc)

theorem WellFormed.insertChunk (hs : s.WellFormed) (id : Int) (c : Chunk) (v : Embedding) :
    (s.insertChunk id c v).WellFormed where
  ids := hs.ids
  counted := hs.counted
  paths := hs.paths
  increasing := by
    refine List.pairwise_append.mpr ⟨hs.increasing, List.pairwise_singleton _ _, ?_⟩
    intro b hb c' hc'
    rw [List.mem_singleton.mp hc']
    exact Int.lt_add_one_of_le (hs.bounded b hb)
  bounded := by
    intro b hb
    rcases List.mem_append.mp hb with hb | hb
    · exact Int.le_trans (hs.bounded b hb) (Int.le_add_one (Int.le_refl _))
    · rw [List.mem_singleton.mp hb]
      exact Int.le_refl _

/-- **Every request keeps a store well-formed.** -/
theorem WellFormed.perform (hs : s.WellFormed) (now : Instant) (c : Store.Call) :
    (s.perform now c).2.WellFormed := by
  cases c with
  | upsertDocument d => exact hs.upsert
  | clearDocumentHash id => exact hs.clearHash id
  | deleteChunks id => exact hs.deleteChunks id
  | insertChunk id c v => exact hs.insertChunk id c v
  | _ => exact hs

end Memory

/-! ## Rows -/

/-- What is stored of a chunk, without its key, its document and its vector. -/
def StoredChunk.row (c : StoredChunk) : String × ChunkMetadata := (c.content, c.metadata)

/-- What will be stored of a chunk. -/
def Chunk.row (c : Chunk) : String × ChunkMetadata := (c.content, c.metadata)

namespace Memory

variable {s s' s'' : Memory} {id : Int}

/-- The rows of a document, in the order of their keys. -/
def rows (s : Memory) (id : Int) : List (String × ChunkMetadata) :=
  (s.chunksOf id).map StoredChunk.row

@[simp] theorem rows_insertChunk (c : Chunk) (v : Embedding) :
    (s.insertChunk id c v).rows id = s.rows id ++ [c.row] := by
  rw [rows, chunksOf_insertChunk, if_pos rfl, List.map_append]
  rfl

@[simp] theorem rows_deleteChunks : (s.deleteChunks id).2.rows id = [] := by
  rw [rows, chunksOf_deleteChunks, if_pos rfl, List.map_nil]

/-- The stores differ in the chunks of one document only. -/
structure Touches (id : Int) (s s' : Memory) : Prop where
  /-- the documents are the same -/
  documents_eq : s'.documents = s.documents
  /-- every other document has the same chunks -/
  chunksOf_eq : ∀ j, j ≠ id → s'.chunksOf j = s.chunksOf j

theorem Touches.refl (s : Memory) : Touches id s s where
  documents_eq := rfl
  chunksOf_eq := fun _ _ => rfl

theorem Touches.trans (h : Touches id s s') (h' : Touches id s' s'') : Touches id s s'' where
  documents_eq := h'.documents_eq.trans h.documents_eq
  chunksOf_eq := fun j hj => (h'.chunksOf_eq j hj).trans (h.chunksOf_eq j hj)

theorem touches_insertChunk (c : Chunk) (v : Embedding) : Touches id s (s.insertChunk id c v) where
  documents_eq := rfl
  chunksOf_eq := fun j hj => by rw [chunksOf_insertChunk, if_neg hj]

theorem touches_deleteChunks : Touches id s (s.deleteChunks id).2 where
  documents_eq := rfl
  chunksOf_eq := fun j hj => by rw [chunksOf_deleteChunks, if_neg hj]

end Memory

end MarkdownIndex
