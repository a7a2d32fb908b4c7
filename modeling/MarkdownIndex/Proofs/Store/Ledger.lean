import Mathlib
import MarkdownIndex.Proofs.Store.Documents
import MarkdownIndex.Proofs.Store.Search

/-!
# Ledgers: keys and counts, told from what has been asked

A store gives out keys and tells how much it holds. Both follow from the requests that have filled
it, in whatever order they came, and also if some of them concern documents that are not there.

* `writes`, `pathCount` — the documents that a trace has written, and how many paths these have.
* `additions`, `removals` — the chunks that a trace has added, as rows with their keys, and how many
  have been taken away.
* `Ledger` — a store is what these say; `Ledger.next` — one request keeps it so, and
  `Ledger.of_gives` — any number of them.
* `Orderly`, `orderly_of_gives` — **what keys and counts of a store can be relied on for.**
* `served`, `after`, `gives_served` — requests none of which is refused.
-/

namespace MarkdownIndex

/-! ## What a trace says -/

/-- The path of a document that has been written, and the key that was answered. -/
def Exchange.written? : Exchange Work.interface → Option (String × Int)
  | ⟨.store (.upsertDocument d), Except.ok id⟩ => some (d.path, id)
  | _ => none

/-- A chunk that has been added, between the key of its document and its vector. -/
def Exchange.addition? : Exchange Work.interface → Option (Int × Chunk × Embedding)
  | ⟨.store (.insertChunk id c v), Except.ok _⟩ => some (id, c, v)
  | _ => none

/-- The number of chunks that have been taken away, as it was answered. -/
def Exchange.removed : Exchange Work.interface → Nat
  | ⟨.store (.deleteChunks _), Except.ok n⟩ => n
  | _ => 0

/-- The paths that have been written with the keys that were answered, in order. -/
def writes (t : List (Exchange Work.interface)) : List (String × Int) :=
  t.filterMap Exchange.written?

/-- The number of different paths that have been written. -/
def pathCount (t : List (Exchange Work.interface)) : Nat :=
  ((writes t).map (·.1)).dedup.length

/-- The row of a chunk before which a number of chunks have been added. -/
def rowAfter (n : Nat) (a : Int × Chunk × Embedding) : StoredChunk :=
  ⟨n + 1, a.1, a.2.1.content, a.2.1.metadata, a.2.2⟩

/-- The rows of all chunks that have been added, in order and with keys from one on, as if none had
been taken away. -/
def additions (t : List (Exchange Work.interface)) : List StoredChunk :=
  (t.filterMap Exchange.addition?).mapIdx rowAfter

/-- The number of chunks that have been taken away. -/
def removals (t : List (Exchange Work.interface)) : Nat :=
  (t.map Exchange.removed).sum

section Trace

variable {t u : List (Exchange Work.interface)} {x : Exchange Work.interface}

@[simp] theorem writes_concat : writes (t ++ [x]) = writes t ++ x.written?.toList := by
  cases h : x.written? <;> simp [writes, h]

@[simp] theorem additions_concat :
    additions (t ++ [x]) =
      additions t ++ (x.addition?.map (rowAfter (additions t).length)).toList := by
  cases h : x.addition? <;> simp [additions, h]

@[simp] theorem removals_concat : removals (t ++ [x]) = removals t + x.removed := by
  simp [removals]

/-- What has been added stays where it is in the list. -/
theorem additions_initial : additions t <+: additions (t ++ u) := by
  simp [additions, List.mapIdx_append]

/-- Every key stands for one addition. -/
theorem eq_of_mem_additions {b c : StoredChunk} (hb : b ∈ additions t) (hc : c ∈ additions t)
    (h : b.id = c.id) : b = c := by
  obtain ⟨i, hi, rfl⟩ := List.mem_mapIdx.mp hb
  obtain ⟨j, hj, rfl⟩ := List.mem_mapIdx.mp hc
  obtain rfl : i = j := by
    simp only [rowAfter] at h
    omega
  rfl

end Trace

/-! ## Stores and their traces -/

namespace Memory

variable {s s₁ s' : Memory} {d : NewDocument} {now : Instant} {R : Store.Call → Prop}
variable {t u v : List (Exchange Work.interface)} {x : Exchange Work.interface}

/-- The paths of the documents with their keys. -/
def register (s : Memory) : List (String × Int) :=
  s.documents.map fun d => (d.path, d.id)

/-- Writing a document enters its path under its key, and nothing else changes. -/
theorem mem_register_upsert (hs : s.WellFormed) {w : String × Int} :
    w ∈ (s.upsert d now).2.register ↔ w ∈ s.register ∨ w = (d.path, (s.upsert d now).1) := by
  simp only [register, List.mem_map, mem_documents_upsert hs]
  constructor
  · rintro ⟨e, rfl | ⟨he, -⟩, rfl⟩
    · exact Or.inr rfl
    · exact Or.inl ⟨e, he, rfl⟩
  · rintro (⟨e, he, rfl⟩ | rfl)
    · by_cases hpath : e.path = d.path
      · -- the document that was there before has been written over under its own key
        have hold : s.document? d.path = some e := (document?_eq_some_iff hs).mpr ⟨he, hpath⟩
        have hid : e.id = (s.upsert d now).1 := by
          rw [fst_upsert hs, key_of_document? hold]
        exact ⟨_, Or.inl rfl, by rw [hpath, hid]; rfl⟩
      · exact ⟨e, Or.inr ⟨he, hpath⟩, rfl⟩
    · exact ⟨_, Or.inl rfl, rfl⟩

/-- A store is what the trace that has filled it says. -/
structure Ledger (t : List (Exchange Work.interface)) (s : Memory) : Prop where
  /-- the store can be relied on -/
  wellFormed : s.WellFormed
  /-- its documents are those that have been written -/
  mem_writes_iff : ∀ w, w ∈ writes t ↔ w ∈ s.register
  /-- its chunks are some of those that have been added -/
  chunks_sublist : s.chunks.Sublist (additions t)
  /-- a key has been given for each chunk that has been added -/
  chunkKey_eq : s.chunkKey = (additions t).length
  /-- what has been added is there or has been taken away -/
  balance : s.chunks.length + removals t = (additions t).length

theorem ledger_nil : Ledger [] {} where
  wellFormed := wellFormed_empty
  mem_writes_iff := fun _ => Iff.rfl
  chunks_sublist := List.Sublist.refl []
  chunkKey_eq := rfl
  balance := rfl

/-- A request is entered by what it writes, what it adds, and how much it takes away. -/
theorem Ledger.enter (h : Ledger t s) (w : Option (String × Int))
    (a : Option (Int × Chunk × Embedding)) (n : Nat) (hwritten : x.written? = w)
    (haddition : x.addition? = a) (hremoved : x.removed = n) (hs : s'.WellFormed)
    (hregister : ∀ e, e ∈ s'.register ↔ e ∈ s.register ∨ w = some e)
    (hchunks : s'.chunks.Sublist (s.chunks ++ (a.map (rowAfter (additions t).length)).toList))
    (hkey : s'.chunkKey = s.chunkKey + a.toList.length)
    (hbalance : s'.chunks.length + n = s.chunks.length + a.toList.length) :
    Ledger (t ++ [x]) s' where
  wellFormed := hs
  mem_writes_iff := fun e => by
    rw [writes_concat, hwritten, List.mem_append, Option.mem_toList, h.mem_writes_iff, hregister]
  chunks_sublist := by
    rw [additions_concat, haddition]
    exact hchunks.trans (h.chunks_sublist.append_right _)
  chunkKey_eq := by
    rw [additions_concat, haddition, hkey, h.chunkKey_eq]
    cases a <;> simp
  balance := by
    have hbefore := h.balance
    rw [additions_concat, removals_concat, haddition, hremoved]
    cases a with
    | none => simp at hbalance ⊢; omega
    | some a => simp at hbalance ⊢; omega

/-- Requests that neither write a document nor concern chunks leave no entry. -/
theorem Ledger.idle (h : Ledger t s) (hs : s'.WellFormed) (hregister : s'.register = s.register)
    (hchunks : s'.chunks = s.chunks) (hkey : s'.chunkKey = s.chunkKey)
    (hwritten : x.written? = none) (haddition : x.addition? = none) (hremoved : x.removed = 0) :
    Ledger (t ++ [x]) s' := by
  apply h.enter none none 0 hwritten haddition hremoved hs
  · simp [hregister]
  · simp [hchunks]
  · simp [hkey]
  · simp [hchunks]

theorem Ledger.upsert (h : Ledger t s) :
    Ledger (t ++ [⟨.store (.upsertDocument d), Except.ok (s.upsert d now).1⟩])
      (s.upsert d now).2 := by
  apply h.enter (some (d.path, (s.upsert d now).1)) none 0 rfl rfl rfl h.wellFormed.upsert
  · intro e
    rw [mem_register_upsert h.wellFormed, Option.some_inj, eq_comm (a := e)]
  · simp
  · simp
  · simp

theorem Ledger.insertChunk (h : Ledger t s) (id : Int) (c : Chunk) (v : Embedding) :
    Ledger (t ++ [⟨.store (.insertChunk id c v), Except.ok ()⟩]) (s.insertChunk id c v) := by
  apply h.enter none (some (id, c, v)) 0 rfl rfl rfl (h.wellFormed.insertChunk id c v)
  · intro e
    simp [register, Memory.insertChunk]
  · simp [Memory.insertChunk, rowAfter, h.chunkKey_eq]
  · simp [Memory.insertChunk]
  · simp [Memory.insertChunk]

theorem Ledger.deleteChunks (h : Ledger t s) (id : Int) :
    Ledger (t ++ [⟨.store (.deleteChunks id), Except.ok (s.deleteChunks id).1⟩])
      (s.deleteChunks id).2 := by
  have hkept : (s.deleteChunks id).2.chunks.length ≤ s.chunks.length := List.length_filter_le _ _
  apply h.enter none none (s.deleteChunks id).1 rfl rfl rfl (h.wellFormed.deleteChunks id)
  · intro e
    simp [register, Memory.deleteChunks]
  · simp [Memory.deleteChunks]
  · simp [Memory.deleteChunks]
  · simp only [Memory.deleteChunks, Option.toList_none, List.length_nil] at hkept ⊢
    omega

/-- **One request keeps a store what its trace says,** whether it is served or refused. -/
theorem Ledger.next (h : Ledger t s) (hx : Serves R s x.call x.reply s') :
    Ledger (t ++ [x]) s' := by
  obtain ⟨c, r⟩ := x
  cases hx with
  | host => exact h.idle h.wellFormed rfl rfl rfl rfl rfl rfl
  | embedded => exact h.idle h.wellFormed rfl rfl rfl rfl rfl rfl
  | refused _ c f _ =>
    apply h.idle h.wellFormed rfl rfl rfl
    all_goals cases c <;> rfl
  | store _ now c =>
    cases c with
    | upsertDocument d => exact h.upsert
    | insertChunk id c v => exact h.insertChunk id c v
    | deleteChunks id => exact h.deleteChunks id
    | clearDocumentHash id =>
      have hregister : (s.clearHash id).register = s.register :=
        map_documents_clearHash fun _ _ => rfl
      exact h.idle (h.wellFormed.clearHash id) hregister rfl rfl rfl rfl rfl
    | _ => exact h.idle h.wellFormed rfl rfl rfl rfl rfl rfl

/-- **Any number of requests do.** -/
theorem Ledger.of_gives (h : Ledger t s) (hg : Gives (Serves R) s u s') :
    Ledger (t ++ u) s' := by
  induction hg generalizing t with
  | nil s => rwa [List.append_nil]
  | @cons x s s₁ s₂ u hx _ ih =>
    rw [← List.singleton_append, ← List.append_assoc]
    exact ih (h.next hx)

/-- There are as many documents as paths that have been written. -/
theorem Ledger.length_documents (h : Ledger t s) : s.documents.length = pathCount t := by
  have hsame : (s.documents.map (·.path)).Perm ((writes t).map (·.1)).dedup := by
    refine (List.perm_ext_iff_of_nodup h.wellFormed.paths (List.nodup_dedup _)).mpr fun p => ?_
    simp [h.mem_writes_iff, register]
  simpa [pathCount] using hsame.length_eq

/-! ## What can be relied on -/

/-- Keys and counts of a store that has been filled by the requests of a trace. -/
structure Orderly (R : Store.Call → Prop) (t : List (Exchange Work.interface)) (s : Memory) :
    Prop where
  /-- a path keeps the key under which it has first been written, and no other path gets that key -/
  key_eq_iff : ∀ v ∈ writes t, ∀ w ∈ writes t, v.2 = w.2 ↔ v.1 = w.1
  /-- no key is greater than the number of paths that have been written -/
  key_le : ∀ w ∈ writes t, w.2 ≤ pathCount t
  /-- the documents are those that have been written -/
  mem_writes_iff : ∀ w, w ∈ writes t ↔ ∃ d ∈ s.documents, (d.path, d.id) = w
  /-- no two documents have the same key -/
  ids_nodup : (s.documents.map (·.id)).Nodup
  /-- no two documents have the same path -/
  paths_nodup : (s.documents.map (·.path)).Nodup
  /-- the documents are counted by their paths -/
  documents_eq : s.stats.documents = pathCount t
  /-- the chunks are what is left of those that have been added, of which the n-th has the key n -/
  chunks_sublist : s.chunks.Sublist (additions t)
  /-- their keys grow in the order in which they have been added -/
  increasing : s.chunks.Pairwise fun b c => b.id < c.id
  /-- a key that a chunk has had at any time is never given to another one -/
  never_reused : ∀ u v s₁, t = u ++ v → Gives (Serves R) {} u s₁ → ∀ b ∈ s₁.chunks,
    ∀ c ∈ s.chunks, b.id = c.id → b = c
  /-- the chunks are counted by what has been added and what has been taken away -/
  chunks_eq : s.stats.chunks = (additions t).length - removals t
  /-- whenever chunks are taken away, these are the chunks of one document, and all else stays -/
  deletion : ∀ u v id n, t = u ++ ⟨.store (.deleteChunks id), Except.ok n⟩ :: v →
    ∃ s₁, Gives (Serves R) {} u s₁ ∧ n = (s₁.chunksOf id).length ∧
      Gives (Serves R) { s₁ with chunks := s₁.chunks.filter (·.documentId != id) } v s
  /-- every hit is shown with the one document that has its key, or with none -/
  presents : ∀ hit, s.Finds hit → s.Presents hit

theorem Ledger.key_eq_iff (h : Ledger t s) {v w : String × Int} (hv : v ∈ writes t)
    (hw : w ∈ writes t) : v.2 = w.2 ↔ v.1 = w.1 := by
  obtain ⟨d, hd, rfl⟩ := List.mem_map.mp ((h.mem_writes_iff v).mp hv)
  obtain ⟨e, he, rfl⟩ := List.mem_map.mp ((h.mem_writes_iff w).mp hw)
  constructor
  · intro hid
    exact congrArg StoredDocument.path (h.wellFormed.eq_of_id hd he hid)
  · intro hpath
    exact congrArg StoredDocument.id (h.wellFormed.eq_of_path hd he hpath)

theorem Ledger.key_le (h : Ledger t s) {w : String × Int} (hw : w ∈ writes t) :
    w.2 ≤ pathCount t := by
  obtain ⟨d, hd, rfl⟩ := List.mem_map.mp ((h.mem_writes_iff w).mp hw)
  rw [← h.length_documents]
  exact h.wellFormed.id_le hd

/-- **Keys and counts of a store in memory are in order,** whatever it has been asked. -/
theorem orderly_of_gives (h : Gives (Serves R) {} t s) : Orderly R t s := by
  have hledger : Ledger t s := ledger_nil.of_gives h
  have hdocuments : s.stats.documents = s.documents.length := rfl
  have hchunks : s.stats.chunks = s.chunks.length := rfl
  refine ⟨?_, ?_, ?_, ?_, ?_, ?_, ?_, ?_, ?_, ?_, ?_, ?_⟩
  · intro v hv w hw
    exact hledger.key_eq_iff hv hw
  · intro w hw
    exact hledger.key_le hw
  · intro w
    rw [hledger.mem_writes_iff, register, List.mem_map]
  · exact hledger.wellFormed.nodup_ids
  · exact hledger.wellFormed.paths
  · rw [hdocuments, hledger.length_documents]
  · exact hledger.chunks_sublist
  · exact hledger.wellFormed.increasing
  · -- a chunk of before is one of the additions of before, and these are additions still
    rintro u v s₁ rfl hu b hb c hc hid
    have hb' := (ledger_nil.of_gives hu).chunks_sublist.mem hb
    exact eq_of_mem_additions (additions_initial.mem hb') (hledger.chunks_sublist.mem hc) hid
  · have hbalance := hledger.balance
    omega
  · rintro u v id n rfl
    obtain ⟨s₁, hu, hrest⟩ := gives_append.mp h
    obtain ⟨now, hn, hv⟩ := of_gives_ok hrest
    exact ⟨s₁, hu, hn.trans fst_deleteChunks, hv⟩
  · intro hit hfinds
    exact hledger.wellFormed.presents hfinds

/-! ## Requests that are all served -/

/-- What is answered to some requests at an instant, if none is refused. -/
def served (now : Instant) (s : Memory) : List Store.Call → List (Exchange Work.interface)
  | [] => []
  | c :: cs => ⟨.store c, Except.ok (s.perform now c).1⟩ :: served now (s.perform now c).2 cs

/-- The store after them. -/
def after (now : Instant) (s : Memory) : List Store.Call → Memory
  | [] => s
  | c :: cs => after now (s.perform now c).2 cs

/-- Any requests can be served. -/
theorem gives_served (now : Instant) (s : Memory) (cs : List Store.Call) :
    Gives (Serves R) s (s.served now cs) (s.after now cs) := by
  induction cs generalizing s with
  | nil => exact Gives.nil s
  | cons c cs ih => exact Gives.cons (Serves.store s now c) (ih (s.perform now c).2)

/-- Two documents, the first of which loses its chunk, and a chunk of no document. -/
def sampleCalls : List Store.Call :=
  [.upsertDocument ⟨"a.md", "A", "# A", {}⟩, .insertChunk 1 default [], .insertChunk 7 default [],
    .upsertDocument ⟨"b.md", "B", "# B", {}⟩, .deleteChunks 1, .insertChunk 2 default [],
    .upsertDocument ⟨"a.md", "C", "# C", {}⟩, .clearDocumentHash 2]

theorem orderly_of_gives_sample :
    Gives (Serves fun _ => False) {} (({} : Memory).served 0 sampleCalls)
        (({} : Memory).after 0 sampleCalls) ∧
      (({} : Memory).after 0 sampleCalls).stats.documents = 2 ∧
      (({} : Memory).after 0 sampleCalls).stats.chunks = 2 := by
  have hgives := gives_served (R := fun _ => False) 0 {} sampleCalls
  have horderly := orderly_of_gives hgives
  have hpaths : pathCount (({} : Memory).served 0 sampleCalls) = 2 := by decide
  have hadditions : (additions (({} : Memory).served 0 sampleCalls)).length = 3 := by decide
  have hremovals : removals (({} : Memory).served 0 sampleCalls) = 1 := by decide
  refine ⟨hgives, ?_, ?_⟩
  · rw [horderly.documents_eq, hpaths]
    rfl
  · rw [horderly.chunks_eq, hadditions, hremovals]
    rfl

end Memory

end MarkdownIndex
