import MarkdownIndex.Ingest
import MarkdownIndex.Proofs.World

/-!
# Ingestion: what one file does to the store

Each program of ingestion is described once, by what its endings have in common, whatever the store
refuses and the embedder answers on the way.

* `Adds` — chunks have been added to a document: all of them, or some if that failed. Adding a row
  of chunks, a batch and several batches are all of this kind.
* `Effect`, `effect_of_ends` — what processing a file can come to: nothing is written, or the
  document is written and its chunks put in the place of the old ones, or that fails half-way.
* `Kept.processAll` — what no file can spoil a pass over all files does not spoil.
-/

namespace MarkdownIndex

open Text Memory World Program

namespace Ingestor

variable {F : Faults} {g : Ingestor} {w w' : World} {id : Int} {α : Type}

/-! ## Requests -/

/-- A request to the store without which a file fails. -/
theorem ends_stored {c : Store.Call} {r : Except IngestError (Store.Answer c)} :
    Program.Ends (Answers F) (Ingestor.stored c).run w r w' ↔
      (∃ now, r = .ok (w.memory.perform now c).1 ∧
        w' = { w with memory := (w.memory.perform now c).2 }) ∨
      ∃ f, F.refuses c ∧ r = .error (.store f) ∧ w' = w := by
  rw [Ingestor.stored, Program.ends_run_orFail]
  constructor
  · rintro ⟨a, ha, rfl⟩
    rcases ends_store.mp ha with ⟨now, rfl, hw⟩ | ⟨f, h, rfl, hw⟩
    · exact Or.inl ⟨now, rfl, hw⟩
    · exact Or.inr ⟨f, h, rfl, hw⟩
  · rintro (⟨now, rfl, hw⟩ | ⟨f, h, rfl, hw⟩)
    · exact ⟨_, ends_store.mpr (Or.inl ⟨now, rfl, hw⟩), rfl⟩
    · exact ⟨_, ends_store.mpr (Or.inr ⟨f, h, rfl, hw⟩), rfl⟩

/-- What follows a request to the store goes on from the store after it, unless the store
refuses. -/
theorem of_ends_stored_bind {c : Store.Call} {f : Store.Answer c → Attempt IngestError α}
    {r : Except IngestError α} (h : Ends (Answers F) (stored c >>= f).run w r w') :
    (∃ now, Ends (Answers F) (f (w.memory.perform now c).1).run
      { w with memory := (w.memory.perform now c).2 } r w') ∨ ∃ e, r = .error e ∧ w' = w := by
  rcases ends_run_bind.mp h with ⟨a, w₁, hstored, hrest⟩ | ⟨e, hstored, rfl⟩
  · rcases ends_stored.mp hstored with ⟨now, ha, rfl⟩ | ⟨f, -, herror, -⟩
    · rw [Except.ok.inj ha] at hrest
      exact Or.inl ⟨now, hrest⟩
    · cases herror
  · rcases ends_stored.mp hstored with ⟨now, herror, -⟩ | ⟨f, -, -, rfl⟩
    · cases herror
    · exact Or.inr ⟨e, rfl, rfl⟩

/-- What follows a request to the machine goes on in the same world. -/
theorem of_ends_host_bind {c : Host.Call} {f : Host.Reply c → Attempt IngestError α}
    {r : Except IngestError α}
    (h : Ends (Answers F)
      (liftM (Program.ask (I := Work.interface) (.host c)) >>= f : Attempt IngestError α).run
      w r w') :
    ∃ now, Ends (Answers F) (f (Host.answer w.files now c)).run w r w' := by
  rcases ends_run_bind.mp h with ⟨a, w₁, hhost, hrest⟩ | ⟨e, hhost, -⟩
  · obtain ⟨b, hb, hab⟩ := ends_run_lift.mp hhost
    obtain ⟨now, rfl, rfl⟩ := ends_host.mp hb
    rw [Except.ok.inj hab] at hrest
    exact ⟨now, hrest⟩
  · obtain ⟨b, -, hb⟩ := ends_run_lift.mp hhost
    cases hb

/-- Waiting changes nothing. -/
theorem ends_delay {first : Bool} {r : Except IngestError Unit}
    (h : Ends (Answers F) (g.delay first).run w r w') : r = .ok () ∧ w' = w := by
  rw [delay] at h
  split at h
  · exact ends_run_pure.mp h
  · obtain ⟨a, ha, rfl⟩ := ends_run_lift.mp h
    obtain ⟨-, -, hw⟩ := ends_host.mp ha
    exact ⟨rfl, hw⟩

/-! ## Adding chunks -/

/-- Chunks have been added to a document of a store, with a result: if that is no failure, all of
them in order. -/
structure Adds (id : Int) (cs : List Chunk) (r : Except IngestError Unit) (s s' : Memory) :
    Prop where
  /-- nothing else has changed -/
  touches : Touches id s s'
  /-- without a failure the chunks come after those that were there -/
  rows_eq : r = .ok () → s'.rows id = s.rows id ++ cs.map Chunk.row

variable {cs ds : List Chunk} {r : Except IngestError Unit} {s s₁ s' : Memory}
variable {o : Except IngestError FileOutcome}

theorem adds_nil : Adds id [] (.ok ()) s s where
  touches := Touches.refl s
  rows_eq := fun _ => (List.append_nil _).symm

theorem adds_of_error {e : IngestError} (h : Touches id s s') : Adds id cs (.error e) s s' where
  touches := h
  rows_eq := fun he => nomatch he

theorem Adds.append (h : Adds id cs (.ok ()) s s₁) (h' : Adds id ds r s₁ s') :
    Adds id (cs ++ ds) r s s' where
  touches := h.touches.trans h'.touches
  rows_eq := fun hr => by
    rw [h'.rows_eq hr, h.rows_eq rfl, List.append_assoc, List.map_append]

theorem adds_insertChunk (c : Chunk) (v : Embedding) :
    Adds id [c] (.ok ()) s (s.insertChunk id c v) where
  touches := touches_insertChunk c v
  rows_eq := fun _ => rows_insertChunk c v

theorem adds_of_ends_insertAll {cvs : List (Chunk × Embedding)}
    (h : Ends (Answers F) (insertAll id cvs).run w r w') :
    Adds id (cvs.map Prod.fst) r w.memory w'.memory := by
  induction cvs generalizing w with
  | nil =>
    obtain ⟨rfl, rfl⟩ := ends_run_pure.mp h
    exact adds_nil
  | cons cv cvs ih =>
    obtain ⟨c, v⟩ := cv
    rcases of_ends_stored_bind h with ⟨now, hrest⟩ | ⟨e, rfl, rfl⟩
    · exact (adds_insertChunk c v).append (ih hrest)
    · exact adds_of_error (Touches.refl _)

theorem adds_of_ends_writeBatch (h : Ends (Answers F) (writeBatch id cs).run w r w') :
    Adds id cs r w.memory w'.memory := by
  rcases ends_run_bind.mp h with ⟨vs, w₁, hembed, hrest⟩ | ⟨e, hembed, rfl⟩
  · obtain ⟨a, ha, -⟩ := ends_run_orFail.mp hembed
    obtain ⟨-, rfl⟩ := ends_embed.mp ha
    split at hrest
    · rename_i hlength
      have hadds := adds_of_ends_insertAll hrest
      rwa [List.map_fst_zip (Nat.le_of_eq hlength.symm)] at hadds
    · obtain ⟨rfl, rfl⟩ := ends_run_throw.mp hrest
      exact adds_of_error (Touches.refl _)
  · obtain ⟨a, ha, -⟩ := ends_run_orFail.mp hembed
    obtain ⟨-, rfl⟩ := ends_embed.mp ha
    exact adds_of_error (Touches.refl _)

/-- Batches are added one after the other, up to the first that fails. -/
theorem adds_of_ends_writeBatches {first : Bool} {bs : List (List Chunk)}
    (h : Ends (Answers F) (g.writeBatches id first bs).run w r w') :
    Adds id bs.flatten r w.memory w'.memory := by
  induction bs generalizing first w with
  | nil =>
    obtain ⟨rfl, rfl⟩ := ends_run_pure.mp h
    exact adds_nil
  | cons b bs ih =>
    rcases ends_run_bind.mp h with ⟨a, w₁, hdelay, hwrite⟩ | ⟨e, hdelay, -⟩
    · obtain ⟨-, rfl⟩ := ends_delay hdelay
      rcases ends_run_bind.mp hwrite with ⟨a, w₂, hbatch, hrest⟩ | ⟨e, hbatch, rfl⟩
      · exact (adds_of_ends_writeBatch hbatch).append (ih hrest)
      · exact adds_of_error (adds_of_ends_writeBatch hbatch).touches
    · cases (ends_delay hdelay).1

theorem flatten_batches {α : Type} (size : Nat) (as : List α) :
    (batches size as).flatten = as := by
  induction as using batches.induct size with
  | case1 => rw [batches, List.flatten_nil]
  | case2 a as ih =>
    rw [batches, List.flatten_cons, ih, List.cons_append, List.take_append_drop]

/-- **Putting chunks in the place of others leaves exactly those, unless it fails.** -/
theorem of_ends_writeChunks (h : Ends (Answers F) (g.writeChunks id cs).run w r w') :
    Touches id w.memory w'.memory ∧ (r = .ok () → w'.memory.rows id = cs.map Chunk.row) := by
  rcases of_ends_stored_bind h with ⟨now, hrest⟩ | ⟨e, rfl, rfl⟩
  · have hadds := adds_of_ends_writeBatches hrest
    rw [flatten_batches] at hadds
    refine ⟨touches_deleteChunks.trans hadds.touches, fun hr => ?_⟩
    rw [hadds.rows_eq hr]
    exact congrArg (· ++ _) rows_deleteChunks
  · exact ⟨Touches.refl _, fun hr => nomatch hr⟩

/-! ## One file -/

/-- What a file gives: its bytes, their text, and the document to be written for it. -/
structure Renders (files : Files.Disk) (path : Path) (bytes : List UInt8) (text : List Char)
    (d : NewDocument) : Prop where
  /-- the bytes are those of the file -/
  read : Files.read files path = .ok bytes
  /-- the text is what the bytes say -/
  decoded : decode? bytes = some text
  /-- the document is known by the text of the path -/
  path_eq : d.path = Path.text path
  /-- it is called after the text or the file -/
  title_eq : d.title = Markdown.title (String.ofList text) (Path.fileStem path)
  /-- its hash is that of the bytes -/
  hash_eq : d.metadata.fileHash = some (Sha256.hexDigest bytes)

/-- What processing a file can come to in a world: a result and the world after it. -/
inductive Effect (F : Faults) (g : Ingestor) (path : Path) (w : World) :
    Except IngestError FileOutcome → World → Prop
  /-- it fails, and nothing has been written -/
  | failed (e : IngestError) : Effect F g path w (.error e) w
  /-- the store has the hash of the file, and nothing is written -/
  | skipped {bytes : List UInt8} (hread : Files.read w.files path = .ok bytes)
    (hhash : w.memory.hash? (Path.text path) = some (Sha256.hexDigest bytes)) :
    Effect F g path w (.ok .skipped) w
  /-- the document is written, and its chunks are put in the place of the old ones -/
  | written {bytes : List UInt8} {text : List Char} {d : NewDocument} {now : Instant} {s : Memory}
    (hd : Renders w.files path bytes text d)
    (htouches : Touches (w.memory.upsert d now).1 (w.memory.upsert d now).2 s)
    (hrows : s.rows (w.memory.upsert d now).1 =
      (chunks g.limits (String.ofList text)).map Chunk.row) :
    Effect F g path w (.ok (.processed (chunks g.limits (String.ofList text)).length))
      { w with memory := s }
  /-- the document is written, but its chunks are not, or not all; its hash is cleared unless the
  store refuses that too -/
  | broken {bytes : List UInt8} {text : List Char} {d : NewDocument} {now : Instant}
    {s s' : Memory} (e : IngestError) (hd : Renders w.files path bytes text d)
    (htouches : Touches (w.memory.upsert d now).1 (w.memory.upsert d now).2 s)
    (hclear : s' = s.clearHash (w.memory.upsert d now).1 ∨
      F.refuses (.clearDocumentHash (w.memory.upsert d now).1) ∧ s' = s) :
    Effect F g path w (.error e) { w with memory := s' }

/-- The chunks of a document that has been written are put in the place of the old ones. -/
theorem of_ends_writeChunks_processed (h : Ends (Answers F)
      (do
        g.writeChunks id cs
        return FileOutcome.processed cs.length : Attempt IngestError FileOutcome).run w o w') :
    w'.files = w.files ∧ Touches id w.memory w'.memory ∧
      ∀ a, o = .ok a → a = .processed cs.length ∧ w'.memory.rows id = cs.map Chunk.row := by
  refine ⟨files_eq_of_ends h, ?_⟩
  rcases ends_run_bind.mp h with ⟨u, w₁, hchunks, hpure⟩ | ⟨e, hchunks, rfl⟩
  · obtain ⟨htouches, hrows⟩ := of_ends_writeChunks hchunks
    obtain ⟨rfl, rfl⟩ := ends_run_pure.mp hpure
    exact ⟨htouches, fun a ha => ⟨(Except.ok.inj ha).symm, hrows rfl⟩⟩
  · exact ⟨(of_ends_writeChunks hchunks).1, fun a ha => nomatch ha⟩

/-- A failure half-way clears the hash, unless the store refuses, and stays what it is. -/
theorem of_ends_clear_throw {e : IngestError} (h : Ends (Answers F)
      (do
        let _ ← (Work.store (.clearDocumentHash id) : Work (Store.Reply (.clearDocumentHash id)))
        throw e : Attempt IngestError FileOutcome).run w o w') :
    o = .error e ∧ (w' = { w with memory := w.memory.clearHash id } ∨
      F.refuses (.clearDocumentHash id) ∧ w' = w) := by
  rcases ends_run_bind.mp h with ⟨a, w₁, hclear, hthrow⟩ | ⟨e', hclear, -⟩
  · obtain ⟨rfl, rfl⟩ := ends_run_throw.mp hthrow
    obtain ⟨b, hb, -⟩ := ends_run_lift.mp hclear
    refine ⟨rfl, ?_⟩
    rcases ends_store.mp hb with ⟨now, -, hw⟩ | ⟨f, hrefuses, -, hw⟩
    · exact Or.inl hw
    · exact Or.inr ⟨hrefuses, hw⟩
  · obtain ⟨b, -, hb⟩ := ends_run_lift.mp hclear
    cases hb

theorem effect_of_ends_write {path : Path} {bytes : List UInt8} {text : List Char}
    {d : NewDocument} (hd : Renders w.files path bytes text d)
    (h : Ends (Answers F) (g.write d (chunks g.limits (String.ofList text))).run w o w') :
    Effect F g path w o w' := by
  rcases of_ends_stored_bind h with ⟨now, hrest⟩ | ⟨e, rfl, rfl⟩
  · -- the document is in the store; its chunks decide what comes of the file
    rcases ends_run_tryCatch.mp hrest with ⟨a, hchunks, rfl⟩ | ⟨e, ⟨files, s⟩, hchunks, hclear⟩
    · obtain ⟨files, s⟩ := w'
      obtain ⟨hfiles, htouches, hok⟩ := of_ends_writeChunks_processed hchunks
      obtain ⟨rfl, hrows⟩ := hok a rfl
      obtain rfl : files = w.files := hfiles
      exact Effect.written hd htouches hrows
    · obtain ⟨hfiles, htouches, -⟩ := of_ends_writeChunks_processed hchunks
      obtain rfl : files = w.files := hfiles
      obtain ⟨rfl, hcleared⟩ := of_ends_clear_throw hclear
      rcases hcleared with rfl | ⟨hrefuses, rfl⟩
      · exact Effect.broken e hd htouches (Or.inl rfl)
      · exact Effect.broken e hd htouches (Or.inr ⟨hrefuses, rfl⟩)
  · exact Effect.failed e

theorem effect_of_ends_processBytes {path : Path} {bytes : List UInt8}
    (hread : Files.read w.files path = .ok bytes)
    (h : Ends (Answers F)
      (g.processBytes path (Sha256.hexDigest bytes) bytes).run w o w') :
    Effect F g path w o w' := by
  rw [processBytes] at h
  -- no text and no chunks are found out before anything is written
  split at h
  · obtain ⟨rfl, rfl⟩ := ends_run_throw.mp h
    exact Effect.failed _
  · rename_i text htext
    simp only at h
    split at h
    · obtain ⟨rfl, rfl⟩ := ends_run_throw.mp h
      exact Effect.failed _
    · obtain ⟨_, hrest⟩ := of_ends_host_bind (c := .modified path) h
      obtain ⟨now, hwrite⟩ := of_ends_host_bind (c := .now) hrest
      exact effect_of_ends_write ⟨hread, htext, rfl, rfl, rfl⟩ hwrite

/-- **What processing a file can come to.** -/
theorem effect_of_ends {path : Path} (h : Ends (Answers F) (g.processFile path).run w o w') :
    Effect F g path w o w' := by
  rcases ends_run_bind.mp h with ⟨bytes, w₁, hread, hrest⟩ | ⟨e, hread, rfl⟩
  · obtain ⟨a, ha, hok⟩ := ends_run_orFail.mp hread
    obtain ⟨now, hanswer, rfl⟩ := ends_host.mp ha
    have hbytes : Files.read w₁.files path = .ok bytes :=
      hanswer.symm.trans (mapError_eq_ok_iff.mp hok.symm)
    rcases of_ends_stored_bind hrest with ⟨now, hknown⟩ | ⟨e, rfl, rfl⟩
    · split at hknown
      · rename_i hsame
        obtain ⟨rfl, rfl⟩ := ends_run_pure.mp hknown
        exact Effect.skipped hbytes hsame
      · exact effect_of_ends_processBytes hbytes hknown
    · exact Effect.failed e
  · obtain ⟨a, ha, -⟩ := ends_run_orFail.mp hread
    obtain ⟨-, -, rfl⟩ := ends_host.mp ha
    exact Effect.failed e

/-! ## Success -/

theorem exists_ends_insertAll (F : Faults) (id : Int) (cvs : List (Chunk × Embedding))
    (w : World) : ∃ w', Ends (Answers F) (insertAll id cvs).run w (.ok ()) w' := by
  induction cvs generalizing w with
  | nil => exact ⟨w, ends_run_pure.mpr ⟨rfl, rfl⟩⟩
  | cons cv cvs ih =>
    obtain ⟨c, v⟩ := cv
    obtain ⟨w', hrest⟩ := ih { w with memory := w.memory.insertChunk id c v }
    exact ⟨w', ends_run_bind.mpr
      (Or.inl ⟨(), _, ends_stored.mpr (Or.inl ⟨0, rfl, rfl⟩), hrest⟩)⟩

theorem exists_ends_writeBatch (hF : F.Obliging) (id : Int) (cs : List Chunk) (w : World) :
    ∃ w', Ends (Answers F) (writeBatch id cs).run w (.ok ()) w' := by
  obtain ⟨vs, hlength, hvs⟩ := hF (cs.map (·.content))
  obtain ⟨w', hinsert⟩ := exists_ends_insertAll F id (cs.zip vs) w
  refine ⟨w', ends_run_bind.mpr (Or.inl ⟨vs, w, ?_, ?_⟩)⟩
  · exact ends_run_orFail.mpr ⟨.ok vs, ends_embed.mpr ⟨hvs, rfl⟩, rfl⟩
  · rwa [if_pos (hlength.trans (List.length_map _))]

theorem ends_delay_ok (F : Faults) (g : Ingestor) (first : Bool) (w : World) :
    Ends (Answers F) (g.delay first).run w (.ok ()) w := by
  rw [delay]
  split
  · exact ends_run_pure.mpr ⟨rfl, rfl⟩
  · exact ends_run_lift.mpr ⟨(), ends_host.mpr ⟨0, rfl, rfl⟩, rfl⟩

theorem exists_ends_writeBatches (hF : F.Obliging) (g : Ingestor) (id : Int) (first : Bool)
    (bs : List (List Chunk)) (w : World) :
    ∃ w', Ends (Answers F) (g.writeBatches id first bs).run w (.ok ()) w' := by
  induction bs generalizing first w with
  | nil => exact ⟨w, ends_run_pure.mpr ⟨rfl, rfl⟩⟩
  | cons b bs ih =>
    obtain ⟨w₁, hbatch⟩ := exists_ends_writeBatch hF id b w
    obtain ⟨w', hrest⟩ := ih false w₁
    refine ⟨w', ends_run_bind.mpr (Or.inl ⟨(), w, ends_delay_ok F g first w, ?_⟩)⟩
    exact ends_run_bind.mpr (Or.inl ⟨(), w₁, hbatch, hrest⟩)

theorem exists_ends_write (hF : F.Obliging) (g : Ingestor) (d : NewDocument) (cs : List Chunk)
    (w : World) :
    ∃ w', Ends (Answers F) (g.write d cs).run w (.ok (.processed cs.length)) w' := by
  obtain ⟨w', hbatches⟩ := exists_ends_writeBatches hF g (w.memory.upsert d 0).1 true
    (batches g.batchSize cs)
    { w with memory := ((w.memory.upsert d 0).2.deleteChunks (w.memory.upsert d 0).1).2 }
  refine ⟨w', ends_run_bind.mpr (Or.inl ⟨(w.memory.upsert d 0).1,
    { w with memory := (w.memory.upsert d 0).2 }, ends_stored.mpr (Or.inl ⟨0, rfl, rfl⟩), ?_⟩)⟩
  refine ends_run_tryCatch.mpr (Or.inl ⟨_, ends_run_bind.mpr (Or.inl ⟨(), w', ?_, ?_⟩), rfl⟩)
  · exact ends_run_bind.mpr
      (Or.inl ⟨_, _, ends_stored.mpr (Or.inl ⟨0, rfl, rfl⟩), hbatches⟩)
  · exact ends_run_pure.mpr ⟨rfl, rfl⟩

/-- **A file whose bytes are new and have chunks can be processed.** -/
theorem exists_ends_processFile (hF : F.Obliging) {g : Ingestor} {path : Path}
    {bytes : List UInt8} {text : List Char} (hread : Files.read w.files path = .ok bytes)
    (hnew : w.memory.hash? (Path.text path) ≠ some (Sha256.hexDigest bytes))
    (htext : decode? bytes = some text) (hchunks : chunks g.limits (String.ofList text) ≠ []) :
    ∃ w', Ends (Answers F) (g.processFile path).run w
      (.ok (.processed (chunks g.limits (String.ofList text)).length)) w' := by
  obtain ⟨w', hwrite⟩ := exists_ends_write hF g
    (documentOf path (String.ofList text) (Sha256.hexDigest bytes) bytes.length
      (Files.modified? w.files path) 0) (chunks g.limits (String.ofList text)) w
  refine ⟨w', ends_run_bind.mpr (Or.inl ⟨bytes, w, ?_, ?_⟩)⟩
  · refine ends_run_orFail.mpr ⟨.ok bytes, ends_host.mpr ⟨0, hread.symm, rfl⟩, rfl⟩
  · refine ends_run_bind.mpr
      (Or.inl ⟨w.memory.hash? (Path.text path), w, ends_stored.mpr (Or.inl ⟨0, rfl, rfl⟩), ?_⟩)
    rw [if_neg hnew, processBytes, htext]
    simp only
    refine ends_run_bind.mpr (Or.inl ⟨Files.modified? w.files path, w, ?_, ?_⟩)
    · exact ends_run_lift.mpr ⟨_, ends_host.mpr ⟨0, rfl, rfl⟩, rfl⟩
    · refine ends_run_bind.mpr (Or.inl ⟨0, w, ?_, hwrite⟩)
      exact ends_run_lift.mpr ⟨_, ends_host.mpr ⟨0, rfl, rfl⟩, rfl⟩

/-! ## All files -/

/-- A property of worlds that processing a file does not spoil. -/
def Kept (F : Faults) (g : Ingestor) (P : World → Prop) : Prop :=
  ∀ {path : Path} {w w' : World} {o : Except IngestError FileOutcome},
    P w → Ends (Answers F) (g.processFile path).run w o w' → P w'

variable {P : World → Prop}

theorem Kept.processFiles (hP : Kept F g P) {paths : List Path} {r r' : IngestReport}
    (h : Ends (Answers F) (g.processFiles r paths) w r' w') (hw : P w) : P w' := by
  induction paths generalizing r w with
  | nil =>
    obtain ⟨-, rfl⟩ := ends_done.mp h
    exact hw
  | cons path paths ih =>
    obtain ⟨o, w₁, hfile, hrest⟩ := ends_bind.mp h
    exact ih hrest (hP hw hfile)

/-- **What no file can spoil a pass over all files does not spoil.** -/
theorem Kept.processAll (hP : Kept F g P) {r : Except ScanError IngestReport}
    (h : Ends (Answers F) g.processAll w r w') (hw : P w) : P w' := by
  obtain ⟨found, w₁, hscan, hrest⟩ := ends_bind.mp h
  obtain ⟨-, -, rfl⟩ := ends_host.mp hscan
  cases found with
  | error e =>
    obtain ⟨-, rfl⟩ := ends_done.mp hrest
    exact hw
  | ok paths =>
    obtain ⟨r', w₂, hfiles, hdone⟩ := ends_bind.mp hrest
    obtain ⟨-, rfl⟩ := ends_done.mp hdone
    exact hP.processFiles hfiles hw

end Ingestor

end MarkdownIndex
