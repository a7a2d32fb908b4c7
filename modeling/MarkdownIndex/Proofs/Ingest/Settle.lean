import MarkdownIndex.Proofs.Ingest
import MarkdownIndex.Proofs.Store.Holding

/-!
# Settling: what becomes of a file whose embedder is a function

When the store refuses nothing and the embedder is a function of the texts, then how a file ends
depends on its bytes and on what the store holds of its path, and so does what the store holds of
it afterwards. Nothing else in the store matters, and nothing else in it changes.

* `Yield`, `Ingestor.yield` — what comes of embedding chunks, batch by batch up to the first that
  fails.
* `Ingestor.settle` — what becomes of a file, by its bytes and what is held of its path.
* `Lands`, `lands_of_ends` — the endings of a file are just that.
* `settle_settle` — settling a file again changes nothing: a file that has not failed is skipped,
  and one that has fails in the same way.
-/

namespace MarkdownIndex

open Text Memory World Program

/-- What comes of embedding chunks. -/
structure Yield where
  /-- what is to be stored -/
  passages : List Passage
  /-- whether all chunks have got their vectors -/
  result : Except IngestError Unit

/-- Some chunks after others, if these have not failed. -/
def Yield.andThen (x y : Yield) : Yield :=
  match x.result with
  | .ok () => ⟨x.passages ++ y.passages, y.result⟩
  | .error _ => x

namespace Ingestor

variable {f : List String → Except EmbeddingError (List Embedding)} {g : Ingestor}
variable {w w' : World} {id : Int} {cs : List Chunk} {path : Path} {key : String} {α : Type}

/-! ## Chunks -/

/-- What comes of a batch of chunks: everything or nothing. -/
def batchYield (f : List String → Except EmbeddingError (List Embedding)) (batch : List Chunk) :
    Yield :=
  match f (batch.map (·.content)) with
  | .error e => ⟨[], .error (.embedding (firstIndex batch) e)⟩
  | .ok vectors =>
    if vectors.length = batch.length then
      ⟨(batch.zip vectors).map fun cv => cv.1.passage cv.2, .ok ()⟩
    else ⟨[], .error (.vectorCount batch.length vectors.length)⟩

/-- What comes of some batches. -/
def yield (f : List String → Except EmbeddingError (List Embedding)) : List (List Chunk) → Yield
  | [] => ⟨[], .ok ()⟩
  | b :: bs => (batchYield f b).andThen (yield f bs)

theorem length_batchYield (h : (batchYield f cs).result = .ok ()) :
    (batchYield f cs).passages.length = cs.length := by
  rw [batchYield] at h ⊢
  cases hf : f (cs.map (·.content)) with
  | error e =>
    rw [hf] at h
    cases h
  | ok vectors =>
    rw [hf] at h
    by_cases hlength : vectors.length = cs.length
    · simp [hlength]
    · simp [hlength] at h

/-- Without a failure every chunk has become a passage. -/
theorem length_yield {bs : List (List Chunk)} (h : (yield f bs).result = .ok ()) :
    (yield f bs).passages.length = bs.flatten.length := by
  induction bs with
  | nil => rfl
  | cons b bs ih =>
    rw [yield, Yield.andThen] at h ⊢
    cases hb : (batchYield f b).result with
    | error e =>
      simp only [hb] at h
      cases h
    | ok u =>
      simp only [hb] at h ⊢
      rw [List.length_append, length_batchYield hb, ih h, List.flatten_cons, List.length_append]

/-- A steady store does what it is asked for, and what follows goes on from there. -/
theorem of_ends_steady_bind {c : Store.Call} {k : Store.Answer c → Attempt IngestError α}
    {r : Except IngestError α}
    (h : Ends (Answers (.steady f)) (stored c >>= k).run w r w') :
    ∃ now, Ends (Answers (.steady f)) (k (w.memory.perform now c).1).run
      { w with memory := (w.memory.perform now c).2 } r w' := by
  rcases ends_run_bind.mp h with ⟨a, w₁, hstored, hrest⟩ | ⟨e, hstored, -⟩
  · rcases ends_stored.mp hstored with ⟨now, ha, rfl⟩ | ⟨_, hrefuses, -⟩
    · rw [Except.ok.inj ha] at hrest
      exact ⟨now, hrest⟩
    · exact hrefuses.elim
  · rcases ends_stored.mp hstored with ⟨now, herror, -⟩ | ⟨_, hrefuses, -⟩
    · cases herror
    · exact hrefuses.elim

theorem gains_of_ends_insertAll {cvs : List (Chunk × Embedding)} {r : Except IngestError Unit}
    (h : Ends (Answers (.steady f)) (insertAll id cvs).run w r w') :
    r = .ok () ∧ Gains id (cvs.map fun cv => cv.1.passage cv.2) w.memory w'.memory := by
  induction cvs generalizing w with
  | nil =>
    obtain ⟨rfl, rfl⟩ := ends_run_pure.mp h
    exact ⟨rfl, gains_nil _⟩
  | cons cv cvs ih =>
    obtain ⟨c, v⟩ := cv
    obtain ⟨now, hrest⟩ := of_ends_steady_bind h
    obtain ⟨hr, hgains⟩ := ih hrest
    exact ⟨hr, (gains_insertChunk c v).append hgains⟩

theorem gains_of_ends_writeBatch {r : Except IngestError Unit}
    (h : Ends (Answers (.steady f)) (writeBatch id cs).run w r w') :
    r = (batchYield f cs).result ∧ Gains id (batchYield f cs).passages w.memory w'.memory := by
  rw [batchYield]
  rcases ends_run_bind.mp h with ⟨vs, w₁, hembed, hrest⟩ | ⟨e, hembed, rfl⟩
  · obtain ⟨a, ha, hok⟩ := ends_run_orFail.mp hembed
    obtain ⟨hvectors, rfl⟩ := ends_embed.mp ha
    obtain rfl := mapError_eq_ok_iff.mp hok.symm
    have hf : f (cs.map (·.content)) = .ok vs := hvectors.symm
    rw [hf]
    by_cases hlength : vs.length = cs.length
    · simp only [if_pos hlength] at hrest ⊢
      exact gains_of_ends_insertAll hrest
    · simp only [if_neg hlength] at hrest ⊢
      obtain ⟨rfl, rfl⟩ := ends_run_throw.mp hrest
      exact ⟨rfl, gains_nil _⟩
  · obtain ⟨a, ha, herror⟩ := ends_run_orFail.mp hembed
    obtain ⟨hvectors, rfl⟩ := ends_embed.mp ha
    have hf : f (cs.map (·.content)) = a := hvectors.symm
    rw [hf]
    cases a with
    | ok vs => cases herror
    | error reason =>
      obtain rfl := Except.error.inj herror
      exact ⟨rfl, gains_nil _⟩

/-- Batches are added one after the other, up to the first that fails. -/
theorem gains_of_ends_writeBatches {first : Bool} {bs : List (List Chunk)}
    {r : Except IngestError Unit}
    (h : Ends (Answers (.steady f)) (g.writeBatches id first bs).run w r w') :
    r = (yield f bs).result ∧ Gains id (yield f bs).passages w.memory w'.memory := by
  induction bs generalizing first w with
  | nil =>
    obtain ⟨rfl, rfl⟩ := ends_run_pure.mp h
    exact ⟨rfl, gains_nil _⟩
  | cons b bs ih =>
    rw [yield, Yield.andThen]
    rcases ends_run_bind.mp h with ⟨a, w₁, hdelay, hwrite⟩ | ⟨e, hdelay, -⟩
    · obtain ⟨-, rfl⟩ := ends_delay hdelay
      rcases ends_run_bind.mp hwrite with ⟨a, w₂, hbatch, hrest⟩ | ⟨e, hbatch, rfl⟩
      · obtain ⟨hok, hgains⟩ := gains_of_ends_writeBatch hbatch
        obtain ⟨hr, hgains'⟩ := ih hrest
        rw [← hok]
        exact ⟨hr, hgains.append hgains'⟩
      · obtain ⟨herror, hgains⟩ := gains_of_ends_writeBatch hbatch
        rw [← herror]
        exact ⟨herror, hgains⟩
    · cases (ends_delay hdelay).1

/-- What comes of all chunks of a document. -/
def chunksYield (g : Ingestor) (f : List String → Except EmbeddingError (List Embedding))
    (cs : List Chunk) : Yield :=
  yield f (batches g.batchSize cs)

theorem length_chunksYield (h : (g.chunksYield f cs).result = .ok ()) :
    (g.chunksYield f cs).passages.length = cs.length := by
  rw [chunksYield, length_yield h, flatten_batches]

/-- **Whatever a document held, it is what comes of the new chunks that it holds afterwards.** -/
theorem passages_of_ends_writeChunks {r : Except IngestError Unit}
    (h : Ends (Answers (.steady f)) (g.writeChunks id cs).run w r w') :
    r = (g.chunksYield f cs).result ∧ Touches id w.memory w'.memory ∧
      w'.memory.passages id = (g.chunksYield f cs).passages := by
  obtain ⟨now, hrest⟩ := of_ends_steady_bind h
  obtain ⟨hr, hgains⟩ := gains_of_ends_writeBatches hrest
  refine ⟨hr, touches_deleteChunks.trans hgains.touches, ?_⟩
  rw [hgains.passages_eq]
  exact congrArg (· ++ _) passages_deleteChunks

/-! ## Files -/

/-- What becomes of a document with chunks: how its file ends, and what is held of it afterwards.
Its hash is kept if all chunks have got their vectors. -/
def settleChunks (g : Ingestor) (f : List String → Except EmbeddingError (List Embedding))
    (title hash : String) (cs : List Chunk) : Except IngestError FileOutcome × Holding :=
  match (g.chunksYield f cs).result with
  | .ok () => (.ok (.processed cs.length), ⟨some title, some hash, (g.chunksYield f cs).passages⟩)
  | .error e => (.error e, ⟨some title, none, (g.chunksYield f cs).passages⟩)

/-- What becomes of a file that has been read, by what is held of it. -/
def settleBytes (g : Ingestor) (f : List String → Except EmbeddingError (List Embedding))
    (path : Path) (bytes : List UInt8) (h : Holding) :
    Except IngestError FileOutcome × Holding :=
  if h.hash = some (Sha256.hexDigest bytes) then (.ok .skipped, h)
  else
    match decode? bytes with
    | none => (.error (.notUtf8 path), h)
    | some text =>
      match chunks g.limits (String.ofList text) with
      | [] => (.error (.emptyDocument path), h)
      | c :: cs =>
        g.settleChunks f (Markdown.title (String.ofList text) (Path.fileStem path))
          (Sha256.hexDigest bytes) (c :: cs)

/-- What becomes of a file: how it ends, and what is held of it afterwards. -/
def settle (g : Ingestor) (f : List String → Except EmbeddingError (List Embedding))
    (path : Path) (read : Except Files.FileError (List UInt8)) (h : Holding) :
    Except IngestError FileOutcome × Holding :=
  match read with
  | .error reason => (.error (.read path reason), h)
  | .ok bytes => g.settleBytes f path bytes h

/-- A file whose hash is known stays what it is. -/
theorem settleBytes_of_hash {bytes : List UInt8} {h : Holding}
    (hsame : h.hash = some (Sha256.hexDigest bytes)) :
    g.settleBytes f path bytes h = (.ok .skipped, h) := if_pos hsame

@[simp] theorem settle_error (reason : Files.FileError) (h : Holding) :
    g.settle f path (.error reason) h = (.error (.read path reason), h) := rfl

@[simp] theorem settle_ok (bytes : List UInt8) (h : Holding) :
    g.settle f path (.ok bytes) h = g.settleBytes f path bytes h := rfl

theorem length_settleChunks {title hash : String} {n : Nat}
    (h : (g.settleChunks f title hash cs).1 = .ok (.processed n)) :
    (g.settleChunks f title hash cs).2.passages.length = n := by
  rw [settleChunks] at h ⊢
  cases hyield : (g.chunksYield f cs).result with
  | error e =>
    simp only [hyield] at h
    cases h
  | ok u =>
    simp only [hyield] at h ⊢
    cases h
    exact length_chunksYield hyield

/-- A file that is processed has as many passages as it has chunks. -/
theorem length_settle {read : Except Files.FileError (List UInt8)} {k : Holding} {n : Nat}
    (h : (g.settle f path read k).1 = .ok (.processed n)) :
    (g.settle f path read k).2.passages.length = n := by
  cases read with
  | error reason => cases h
  | ok bytes =>
    rw [settle_ok, settleBytes] at h ⊢
    by_cases hsame : k.hash = some (Sha256.hexDigest bytes)
    · rw [if_pos hsame] at h
      cases h
    · rw [if_neg hsame] at h ⊢
      cases htext : decode? bytes with
      | none =>
        rw [htext] at h
        cases h
      | some text =>
        simp only [htext] at h ⊢
        cases hchunks : chunks g.limits (String.ofList text) with
        | nil =>
          simp only [hchunks] at h
          cases h
        | cons c cs =>
          simp only [hchunks] at h ⊢
          exact length_settleChunks h

/-- A file has ended as has been said, and only what is held under its key has changed. -/
structure Lands (key : String) (x : Except IngestError FileOutcome × Holding)
    (o : Except IngestError FileOutcome) (s s' : Memory) : Prop where
  /-- it has ended so -/
  outcome_eq : o = x.1
  /-- this is held of it -/
  holding_eq : s'.holding key = x.2
  /-- what is held under other keys is what it was -/
  holding_of_ne : ∀ k, k ≠ key → s'.holding k = s.holding k

variable {o : Except IngestError FileOutcome}

/-- A file of which nothing has been written. -/
theorem lands_self (s : Memory) : Lands key (o, s.holding key) o s s where
  outcome_eq := rfl
  holding_eq := rfl
  holding_of_ne := fun _ _ => rfl

/-- A document that has been written, with what comes of its chunks, but not yet cleared. -/
theorem of_ends_writeChunks_bind {n : Nat} {r : Except IngestError FileOutcome} (h : Ends
      (Answers (.steady f)) (do
        g.writeChunks id cs
        return FileOutcome.processed n : Attempt IngestError FileOutcome).run w r w') :
    r = (g.chunksYield f cs).result.map (fun _ => .processed n) ∧ w'.files = w.files ∧
      Touches id w.memory w'.memory ∧
      w'.memory.passages id = (g.chunksYield f cs).passages := by
  have hfiles := files_eq_of_ends h
  rcases ends_run_bind.mp h with ⟨u, w₁, hchunks, hpure⟩ | ⟨e, hchunks, rfl⟩
  · obtain ⟨hr, htouches, hpassages⟩ := passages_of_ends_writeChunks hchunks
    obtain ⟨rfl, rfl⟩ := ends_run_pure.mp hpure
    exact ⟨by rw [← hr]; rfl, hfiles, htouches, hpassages⟩
  · obtain ⟨hr, htouches, hpassages⟩ := passages_of_ends_writeChunks hchunks
    exact ⟨by rw [← hr]; rfl, hfiles, htouches, hpassages⟩

/-- Writing a document with its chunks lands where it should. -/
theorem lands_of_ends_write (hw : w.memory.WellFormed) {d : NewDocument} {hash : String}
    (hhash : d.metadata.fileHash = some hash)
    (h : Ends (Answers (.steady f)) (g.write d cs).run w o w') :
    Lands d.path (g.settleChunks f d.title hash cs) o w.memory w'.memory := by
  obtain ⟨now, hrest⟩ := of_ends_steady_bind h
  rw [settleChunks]
  rcases ends_run_tryCatch.mp hrest with ⟨a, hchunks, rfl⟩ | ⟨e, w₁, hchunks, hclear⟩
  · obtain ⟨hr, -, htouches, hpassages⟩ := of_ends_writeChunks_bind hchunks
    cases hyield : (g.chunksYield f cs).result with
    | error e =>
      rw [hyield] at hr
      cases hr
    | ok u =>
      rw [hyield] at hr
      obtain rfl := Except.ok.inj hr
      refine ⟨rfl, ?_, fun q hq => holding_of_touches_of_ne hw htouches hq⟩
      rw [holding_of_touches hw htouches, hhash]
      exact congrArg _ hpassages
  · obtain ⟨hr, -, htouches, hpassages⟩ := of_ends_writeChunks_bind hchunks
    cases hyield : (g.chunksYield f cs).result with
    | ok u =>
      rw [hyield] at hr
      cases hr
    | error e' =>
      rw [hyield] at hr
      obtain rfl := Except.error.inj hr
      obtain ⟨rfl, hw' | ⟨hrefuses, -⟩⟩ := of_ends_clear_throw hclear
      · -- the chunks are there as far as they have come, and the hash is cleared
        subst hw'
        have hw₁ : w₁.memory.WellFormed := wellFormed_of_ends hchunks hw.upsert
        refine ⟨rfl, ?_, fun q hq => holding_of_touches_clearHash_of_ne hw htouches hw₁ hq⟩
        exact (holding_of_touches_clearHash hw htouches hw₁).trans (congrArg _ hpassages)
      · exact hrefuses.elim

theorem lands_of_ends_processBytes (hw : w.memory.WellFormed) {bytes : List UInt8}
    (hnew : w.memory.hash? (Path.text path) ≠ some (Sha256.hexDigest bytes))
    (h : Ends (Answers (.steady f))
      (g.processBytes path (Sha256.hexDigest bytes) bytes).run w o w') :
    Lands (Path.text path) (g.settleBytes f path bytes (w.memory.holding (Path.text path))) o
      w.memory w'.memory := by
  rw [settleBytes, hash_holding, if_neg hnew]
  rw [processBytes] at h
  -- no text and no chunks are found out before anything is written
  cases htext : decode? bytes with
  | none =>
    rw [htext] at h
    obtain ⟨rfl, rfl⟩ := ends_run_throw.mp h
    exact lands_self _
  | some text =>
    simp only [htext] at h ⊢
    cases hchunks : chunks g.limits (String.ofList text) with
    | nil =>
      simp only [hchunks] at h
      obtain ⟨rfl, rfl⟩ := ends_run_throw.mp h
      exact lands_self _
    | cons c cs =>
      simp only [hchunks] at h
      obtain ⟨_, hrest⟩ := of_ends_host_bind (c := .modified path) h
      obtain ⟨now, hwrite⟩ := of_ends_host_bind (c := .now) hrest
      exact lands_of_ends_write hw rfl hwrite

/-- **A file ends as its bytes and what is held of it say,** and changes nothing else. -/
theorem lands_of_ends (hw : w.memory.WellFormed)
    (h : Ends (Answers (.steady f)) (g.processFile path).run w o w') :
    Lands (Path.text path)
      (g.settle f path (Files.read w.files path) (w.memory.holding (Path.text path))) o w.memory
      w'.memory := by
  rcases ends_run_bind.mp h with ⟨bytes, w₁, hread, hrest⟩ | ⟨e, hread, rfl⟩
  · obtain ⟨a, ha, hok⟩ := ends_run_orFail.mp hread
    obtain ⟨_, rfl, rfl⟩ := ends_host.mp ha
    have hbytes : Files.read w₁.files path = .ok bytes := mapError_eq_ok_iff.mp hok.symm
    rw [hbytes, settle_ok]
    obtain ⟨now, hknown⟩ := of_ends_steady_bind hrest
    split at hknown
    · rename_i hsame
      obtain ⟨rfl, rfl⟩ := ends_run_pure.mp hknown
      rw [settleBytes_of_hash ((hash_holding _ _).trans hsame)]
      exact lands_self _
    · rename_i hnew
      exact lands_of_ends_processBytes hw hnew hknown
  · obtain ⟨a, ha, herror⟩ := ends_run_orFail.mp hread
    obtain ⟨_, rfl, rfl⟩ := ends_host.mp ha
    have hanswer : Except.error e = (Files.read w'.files path).mapError (IngestError.read path) :=
      herror
    cases hbytes : Files.read w'.files path with
    | ok bytes =>
      rw [hbytes] at hanswer
      cases hanswer
    | error reason =>
      rw [hbytes] at hanswer
      obtain rfl := Except.error.inj hanswer
      rw [settle_error]
      exact lands_self _

/-! ## Settling again -/

/-- The outcome of a file that is taken up again: it is skipped, or fails as before. -/
def again (o : Except IngestError FileOutcome) : Except IngestError FileOutcome :=
  o.map fun _ => .skipped

theorem settleBytes_settleBytes (g : Ingestor) (path : Path) (bytes : List UInt8) (h : Holding) :
    g.settleBytes f path bytes (g.settleBytes f path bytes h).2 =
      (again (g.settleBytes f path bytes h).1, (g.settleBytes f path bytes h).2) := by
  by_cases hsame : h.hash = some (Sha256.hexDigest bytes)
  · rw [settleBytes_of_hash hsame, settleBytes_of_hash hsame]
    rfl
  · cases htext : decode? bytes with
    | none =>
      have hfail : g.settleBytes f path bytes h = (.error (.notUtf8 path), h) := by
        rw [settleBytes, if_neg hsame, htext]
      rw [hfail, hfail]
      rfl
    | some text =>
      cases hchunks : chunks g.limits (String.ofList text) with
      | nil =>
        have hfail : g.settleBytes f path bytes h = (.error (.emptyDocument path), h) := by
          simp only [settleBytes, if_neg hsame, htext, hchunks]
        rw [hfail, hfail]
        rfl
      | cons c cs =>
        -- what comes of the chunks does not depend on what was held
        have hwrite : ∀ k : Holding, k.hash ≠ some (Sha256.hexDigest bytes) →
            g.settleBytes f path bytes k = g.settleChunks f
              (Markdown.title (String.ofList text) (Path.fileStem path)) (Sha256.hexDigest bytes)
              (c :: cs) := by
          intro k hk
          simp only [settleBytes, if_neg hk, htext, hchunks]
        rw [hwrite h hsame, settleChunks]
        cases hyield : (g.chunksYield f (c :: cs)).result with
        | ok u =>
          rw [settleBytes_of_hash rfl]
          rfl
        | error e =>
          rw [hwrite _ (Option.some_ne_none _).symm, settleChunks, hyield]
          rfl

/-- **Settling a file again changes nothing:** if it has not failed it is skipped, else it fails in
the same way. -/
theorem settle_settle (g : Ingestor) (path : Path)
    (read : Except Files.FileError (List UInt8)) (h : Holding) :
    g.settle f path read (g.settle f path read h).2 =
      (again (g.settle f path read h).1, (g.settle f path read h).2) := by
  cases read with
  | error reason => rfl
  | ok bytes => exact settleBytes_settleBytes g path bytes h

end Ingestor

end MarkdownIndex
