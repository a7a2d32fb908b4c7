import MarkdownIndex.Proofs.Ingest
import MarkdownIndex.Proofs.Store.Documents

/-!
# The course of a file: what ingestion asks, in order

One inversion of the traces of ingestion, whatever the answers are and whoever gives them.

* `Exchange.read`, `Exchange.stored` — an exchange about a file, and one with the store.
* `Filling` — the traces that add chunks to a document: all of them in order, unless that fails.
* `Start`, `start_of_traces` — how far a file gets before its document is written.
* `Course`, `course_of_traces` — the traces of a file: what it asks and how it ends. Every file is
  read first and only once; its document is written before its chunks, and cleared after a failure.
* `Course.hash?_of_ne`, `Course.hash?_of_ok` and so on — the hashes in a store after a file.
-/

namespace MarkdownIndex

open Text Memory Program

/-! ## Exchanges -/

/-- A file is read. -/
abbrev Exchange.read (path : Path) (r : Except Files.FileError (List UInt8)) :
    Exchange Work.interface := ⟨.host (.read path), r⟩

/-- The time of the last change of a file is asked for. -/
abbrev Exchange.modified (path : Path) (r : Option Instant) : Exchange Work.interface :=
  ⟨.host (.modified path), r⟩

/-- The time is asked for. -/
abbrev Exchange.now (r : Instant) : Exchange Work.interface := ⟨.host .now, r⟩

/-- The store is asked for something. -/
abbrev Exchange.stored (c : Store.Call) (r : Store.Reply c) : Exchange Work.interface :=
  ⟨.store c, r⟩

/-- The request is for the bytes of a file. -/
def Exchange.Reads (path : Path) (x : Exchange Work.interface) : Prop :=
  match x.call with
  | .host (.read q) => q = path
  | _ => False

/-- The request neither reads a file nor looks at all of them. -/
def Exchange.Blind (x : Exchange Work.interface) : Prop :=
  match x.call with
  | .host (.read _) => False
  | .host (.snapshot _) => False
  | _ => True

theorem Exchange.Blind.not_reads {x : Exchange Work.interface} (h : x.Blind) (path : Path) :
    ¬ x.Reads path := by
  obtain ⟨c, r⟩ := x
  rcases c with c | _ | _
  · cases c with
    | read q => exact h.elim
    | _ => exact not_false
  · exact not_false
  · exact not_false

/-- The request is one of those that add chunks to a document. -/
def Exchange.Fills (id : Int) (x : Exchange Work.interface) : Prop :=
  match x.call with
  | .host (.pause _) => True
  | .embed _ => True
  | .store (.insertChunk j _ _) => j = id
  | _ => False

/-- What adds chunks is a pause, the asking for vectors, or an insertion. -/
theorem of_fills {x : Exchange Work.interface} {id : Int} (hx : x.Fills id) :
    (∃ n r, x = ⟨.host (.pause n), r⟩) ∨ (∃ texts r, x = ⟨.embed texts, r⟩) ∨
      ∃ c v r, x = .stored (.insertChunk id c v) r := by
  obtain ⟨c, r⟩ := x
  rcases c with c | c | texts
  · cases c with
    | pause n => exact Or.inl ⟨n, r, rfl⟩
    | _ => exact hx.elim
  · cases c with
    | insertChunk j c v =>
      obtain rfl : j = id := hx
      exact Or.inr (Or.inr ⟨c, v, r, rfl⟩)
    | _ => exact hx.elim
  · exact Or.inr (Or.inl ⟨texts, r, rfl⟩)

namespace Ingestor

variable {g : Ingestor} {path q : Path} {id : Int} {cs ds : List Chunk}
variable {t u : List (Exchange Work.interface)} {r : Except IngestError Unit}
variable {o : Except IngestError FileOutcome}

/-! ## Adding chunks -/

theorem traces_stored {c : Store.Call} {b : Except IngestError (Store.Answer c)} :
    Traces (stored c).run t b ↔ ∃ a : Store.Reply c, t = [.stored c a] ∧ b = a.mapError .store := by
  rw [stored, traces_run_orFail]
  exact exists_congr fun a => and_congr_left fun _ => traces_ask

/-- What follows a request to the store follows its answer, unless the store refuses. -/
theorem of_traces_stored_bind {c : Store.Call} {f : Store.Answer c → Attempt IngestError α}
    {b : Except IngestError α} (h : Traces (stored c >>= f).run t b) :
    (∃ a u, t = .stored c (.ok a) :: u ∧ Traces (f a).run u b) ∨
      ∃ e, t = [.stored c (.error e)] ∧ b = .error (.store e) := by
  rcases traces_run_bind.mp h with ⟨a, u, v, rfl, hstored, hrest⟩ | ⟨e, hstored, rfl⟩
  · obtain ⟨a' | a', rfl, ha⟩ := traces_stored.mp hstored
    · cases ha
    · obtain rfl := Except.ok.inj ha
      exact Or.inl ⟨a, v, rfl, hrest⟩
  · obtain ⟨a' | a', rfl, ha⟩ := traces_stored.mp hstored
    · obtain rfl := Except.error.inj ha
      exact Or.inr ⟨a', rfl, rfl⟩
    · cases ha

/-- What follows a request to the machine follows its answer. -/
theorem of_traces_host_bind {c : Host.Call} {f : Host.Reply c → Attempt IngestError α}
    {b : Except IngestError α}
    (h : Traces (liftM (Program.ask (I := Work.interface) (.host c)) >>= f :
      Attempt IngestError α).run t b) :
    ∃ (a : Host.Reply c) (u : List (Exchange Work.interface)),
      t = ⟨.host c, a⟩ :: u ∧ Traces (f a).run u b := by
  rcases traces_run_bind.mp h with ⟨a, u, v, rfl, hhost, hrest⟩ | ⟨e, hhost, -⟩
  · obtain ⟨a', ha', haa⟩ := traces_run_lift.mp hhost
    obtain rfl := Except.ok.inj haa
    obtain rfl := traces_ask.mp ha'
    exact ⟨a, v, rfl, hrest⟩
  · obtain ⟨a, -, ha⟩ := traces_run_lift.mp hhost
    cases ha

/-- A trace in which chunks are added to a document, with a result: if that is no failure, all of
them in order. -/
structure Filling (id : Int) (cs : List Chunk) (r : Except IngestError Unit)
    (t : List (Exchange Work.interface)) : Prop where
  /-- it serves nothing else -/
  fills : ∀ x ∈ t, x.Fills id
  /-- without a failure the chunks are those that have been added -/
  added_eq : r = .ok () → t.flatMap (Exchange.added id) = cs

theorem filling_nil : Filling id [] (.ok ()) [] where
  fills := fun _ hx => absurd hx List.not_mem_nil
  added_eq := fun _ => rfl

theorem filling_of_error {e : IngestError} (h : ∀ x ∈ t, x.Fills id) :
    Filling id cs (.error e) t where
  fills := h
  added_eq := fun he => nomatch he

theorem Filling.append (h : Filling id cs (.ok ()) t) (h' : Filling id ds r u) :
    Filling id (cs ++ ds) r (t ++ u) where
  fills := fun x hx => (List.mem_append.mp hx).elim (h.fills x) (h'.fills x)
  added_eq := fun hr => by rw [List.flatMap_append, h.added_eq rfl, h'.added_eq hr]

/-- A single request on the way adds what it adds. -/
theorem filling_singleton {x : Exchange Work.interface} (hx : x.Fills id) :
    Filling id (x.added id) (.ok ()) [x] where
  fills := fun _ hy => List.mem_singleton.mp hy ▸ hx
  added_eq := fun _ => List.append_nil _

theorem filling_insertAll {cvs : List (Chunk × Embedding)}
    (h : Traces (insertAll id cvs).run t r) : Filling id (cvs.map Prod.fst) r t := by
  induction cvs generalizing t with
  | nil =>
    obtain ⟨rfl, rfl⟩ := traces_run_pure.mp h
    exact filling_nil
  | cons cv cvs ih =>
    obtain ⟨c, v⟩ := cv
    rcases of_traces_stored_bind h with ⟨a, u, rfl, hrest⟩ | ⟨f, rfl, rfl⟩
    · have hadded : Exchange.added id (.stored (.insertChunk id c v) (.ok a)) = [c] := if_pos rfl
      have hhead : Filling id (Exchange.added id (.stored (.insertChunk id c v) (.ok a))) (.ok ())
          [.stored (.insertChunk id c v) (.ok a)] := filling_singleton rfl
      rw [hadded] at hhead
      exact hhead.append (ih hrest)
    · exact filling_of_error fun x hx => List.mem_singleton.mp hx ▸ rfl

theorem filling_delay {first : Bool} (h : Traces (g.delay first).run t r) : Filling id [] r t := by
  rw [delay] at h
  split at h
  · obtain ⟨rfl, rfl⟩ := traces_run_pure.mp h
    exact filling_nil
  · obtain ⟨a, ha, rfl⟩ := traces_run_lift.mp h
    obtain rfl := traces_ask.mp ha
    exact filling_singleton (x := ⟨.host (.pause g.requestDelay), a⟩) trivial

theorem filling_writeBatch (h : Traces (writeBatch id cs).run t r) : Filling id cs r t := by
  rcases traces_run_bind.mp h with ⟨vs, u, v, rfl, hembed, hrest⟩ | ⟨e, hembed, rfl⟩
  · obtain ⟨a, ha, -⟩ := traces_run_orFail.mp hembed
    obtain rfl := traces_ask.mp ha
    refine (filling_singleton (x := ⟨.embed (cs.map (·.content)), a⟩) trivial).append ?_
    split at hrest
    · rename_i hlength
      have hadds := filling_insertAll hrest
      rwa [List.map_fst_zip (Nat.le_of_eq hlength.symm)] at hadds
    · obtain ⟨rfl, rfl⟩ := traces_run_throw.mp hrest
      exact filling_of_error fun _ hx => absurd hx List.not_mem_nil
  · obtain ⟨a, ha, -⟩ := traces_run_orFail.mp hembed
    obtain rfl := traces_ask.mp ha
    exact filling_of_error fun x hx => List.mem_singleton.mp hx ▸ trivial

/-- Batches are added one after the other, up to the first that fails. -/
theorem filling_writeBatches {first : Bool} {bs : List (List Chunk)}
    (h : Traces (g.writeBatches id first bs).run t r) : Filling id bs.flatten r t := by
  induction bs generalizing first t with
  | nil =>
    obtain ⟨rfl, rfl⟩ := traces_run_pure.mp h
    exact filling_nil
  | cons b bs ih =>
    rcases traces_run_bind.mp h with ⟨a, u, v, rfl, hdelay, hwrite⟩ | ⟨e, hdelay, rfl⟩
    · refine (filling_delay hdelay).append ?_
      rcases traces_run_bind.mp hwrite with ⟨a, u, v, rfl, hbatch, hrest⟩ | ⟨e, hbatch, rfl⟩
      · exact (filling_writeBatch hbatch).append (ih hrest)
      · exact filling_of_error (filling_writeBatch hbatch).fills
    · have hnothing : Filling id [] (.error e) t := filling_delay hdelay
      exact filling_of_error hnothing.fills

/-- The old chunks are taken away, and if that does not fail, the new ones are added. -/
theorem of_traces_writeChunks (h : Traces (g.writeChunks id cs).run t r) :
    ∃ (b : Store.Reply (.deleteChunks id)) (u : List (Exchange Work.interface)),
      t = .stored (.deleteChunks id) b :: u ∧ Filling id cs r u ∧
        (r = .ok () → ∃ n, b = .ok n) := by
  rcases of_traces_stored_bind h with ⟨n, u, rfl, hrest⟩ | ⟨e, rfl, rfl⟩
  · have hfilling := filling_writeBatches hrest
    rw [flatten_batches] at hfilling
    exact ⟨.ok n, u, rfl, hfilling, fun _ => ⟨n, rfl⟩⟩
  · exact ⟨.error e, [], rfl, filling_of_error fun _ hx => absurd hx List.not_mem_nil,
      fun he => nomatch he⟩

/-! ## One file -/

/-- A document is that of a file: of its path, its bytes and their text. -/
structure Describes (path : Path) (bytes : List UInt8) (text : List Char) (d : NewDocument) :
    Prop where
  /-- the text is what the bytes say -/
  decoded : decode? bytes = some text
  /-- the document is known by the text of the path -/
  path_eq : d.path = Path.text path
  /-- it is called after the text or the file -/
  title_eq : d.title = Markdown.title (String.ofList text) (Path.fileStem path)
  /-- its hash is that of the bytes -/
  hash_eq : d.metadata.fileHash = some (Sha256.hexDigest bytes)

/-- What is asked about a file before its document is written: its bytes, the hash that is known of
it, and the times of its last change and of the writing. -/
def opening (path : Path) (bytes : List UInt8) (known : Option String)
    (lastModified : Option Instant) (now : Instant) : List (Exchange Work.interface) :=
  [.read path (.ok bytes), .stored (.documentHash (Path.text path)) (.ok known),
    .modified path lastModified, .now now]

theorem forall_mem_opening {bytes : List UInt8} {known : Option String} {m : Option Instant}
    {now : Instant} {P : Exchange Work.interface → Prop} :
    (∀ x ∈ opening path bytes known m now, P x) ↔
      P (.read path (.ok bytes)) ∧ P (.stored (.documentHash (Path.text path)) (.ok known)) ∧
        P (.modified path m) ∧ P (.now now) := by
  simp [opening]

/-- The courses that ingestion of a file can take: what it asks, and how it ends. -/
inductive Course (g : Ingestor) (path : Path) :
    List (Exchange Work.interface) → Except IngestError FileOutcome → Prop
  /-- the file cannot be read -/
  | unread (reason : Files.FileError) :
    Course g path [.read path (.error reason)] (.error (.read path reason))
  /-- the store does not say what is known of it -/
  | unknown (bytes : List UInt8) (f : Failure) :
    Course g path [.read path (.ok bytes), .stored (.documentHash (Path.text path)) (.error f)]
      (.error (.store f))
  /-- it is unchanged -/
  | unchanged (bytes : List UInt8) :
    Course g path [.read path (.ok bytes),
      .stored (.documentHash (Path.text path)) (.ok (some (Sha256.hexDigest bytes)))] (.ok .skipped)
  /-- it is no text, or one without chunks -/
  | unfit (bytes : List UInt8) (known : Option String) (e : IngestError)
    (hnew : known ≠ some (Sha256.hexDigest bytes)) :
    Course g path [.read path (.ok bytes), .stored (.documentHash (Path.text path)) (.ok known)]
      (.error e)
  /-- its document is not written -/
  | unwritten {bytes : List UInt8} {known : Option String} (m : Option Instant) (now : Instant)
    (d : NewDocument) (f : Failure) (hnew : known ≠ some (Sha256.hexDigest bytes)) :
    Course g path (opening path bytes known m now ++ [.stored (.upsertDocument d) (.error f)])
      (.error (.store f))
  /-- its document is written, and then its chunks -/
  | written {bytes : List UInt8} {known : Option String} {text : List Char} (m : Option Instant)
    (now : Instant) {d : NewDocument} (id : Int) (n : Nat) {u : List (Exchange Work.interface)}
    (hnew : known ≠ some (Sha256.hexDigest bytes)) (hd : Describes path bytes text d)
    (hu : Filling id (chunks g.limits (String.ofList text)) (.ok ()) u) :
    Course g path
      (opening path bytes known m now ++ .stored (.upsertDocument d) (.ok id) ::
        .stored (.deleteChunks id) (.ok n) :: u)
      (.ok (.processed (chunks g.limits (String.ofList text)).length))
  /-- its document is written, but its chunks are not, or not all, and the hash is cleared -/
  | broken {bytes : List UInt8} {known : Option String} {text : List Char} (m : Option Instant)
    (now : Instant) {d : NewDocument} (id : Int) (b : Store.Reply (.deleteChunks id))
    {u : List (Exchange Work.interface)} (e : IngestError)
    (c : Store.Reply (.clearDocumentHash id)) (hnew : known ≠ some (Sha256.hexDigest bytes))
    (hd : Describes path bytes text d) (hu : ∀ x ∈ u, x.Fills id) :
    Course g path
      (opening path bytes known m now ++ .stored (.upsertDocument d) (.ok id) ::
        .stored (.deleteChunks id) b :: (u ++ [.stored (.clearDocumentHash id) c])) (.error e)

/-- A document is written and then its chunks; if those fail, the hash is cleared. -/
theorem of_traces_write {d : NewDocument} (h : Traces (g.write d cs).run t o) :
    (∃ f, t = [.stored (.upsertDocument d) (.error f)] ∧ o = .error (.store f)) ∨
    ∃ id v, t = .stored (.upsertDocument d) (.ok id) :: v ∧
      ((Traces (g.writeChunks id cs).run v (.ok ()) ∧ o = .ok (.processed cs.length)) ∨
        ∃ u e c, v = u ++ [.stored (.clearDocumentHash id) c] ∧
          Traces (g.writeChunks id cs).run u (.error e) ∧ o = .error e) := by
  rcases of_traces_stored_bind h with ⟨id, v, rfl, hrest⟩ | ⟨f, rfl, rfl⟩
  · refine Or.inr ⟨id, v, rfl, ?_⟩
    rcases traces_run_tryCatch.mp hrest with ⟨a, hchunks, rfl⟩ | ⟨e, v₁, v₂, rfl, hchunks, hclear⟩
    · rcases traces_run_bind.mp hchunks with ⟨⟨⟩, u, u', rfl, hwrite, hpure⟩ | ⟨e, -, he⟩
      · obtain ⟨ha, rfl⟩ := traces_run_pure.mp hpure
        rw [List.append_nil]
        exact Or.inl ⟨hwrite, ha⟩
      · cases he
    · rcases traces_run_bind.mp hchunks with ⟨a, u, u', rfl, -, hpure⟩ | ⟨e', hwrite, he⟩
      · cases (traces_run_pure.mp hpure).1
      · obtain rfl := Except.error.inj he
        rcases traces_run_bind.mp hclear with ⟨c, w, w', rfl, hask, hthrow⟩ | ⟨e'', hask, -⟩
        · obtain ⟨c', hc', hcc⟩ := traces_run_lift.mp hask
          obtain rfl := traces_ask.mp hc'
          obtain ⟨rfl, rfl⟩ := traces_run_throw.mp hthrow
          exact Or.inr ⟨v₁, e, c', rfl, hwrite, rfl⟩
        · obtain ⟨c, -, hc⟩ := traces_run_lift.mp hask
          cases hc
  · exact Or.inl ⟨f, rfl, rfl⟩

/-- How far a file gets: it ends before its document is written, or its document and chunks are to
be written. -/
inductive Start (g : Ingestor) (path : Path) :
    List (Exchange Work.interface) → Except IngestError FileOutcome → Prop
  /-- the file cannot be read -/
  | unread (reason : Files.FileError) :
    Start g path [.read path (.error reason)] (.error (.read path reason))
  /-- the store does not say what is known of it -/
  | unknown (bytes : List UInt8) (f : Failure) :
    Start g path [.read path (.ok bytes), .stored (.documentHash (Path.text path)) (.error f)]
      (.error (.store f))
  /-- it is unchanged -/
  | unchanged (bytes : List UInt8) :
    Start g path [.read path (.ok bytes),
      .stored (.documentHash (Path.text path)) (.ok (some (Sha256.hexDigest bytes)))] (.ok .skipped)
  /-- it is no text -/
  | notText {bytes : List UInt8} {known : Option String}
    (hnew : known ≠ some (Sha256.hexDigest bytes)) (htext : decode? bytes = none) :
    Start g path [.read path (.ok bytes), .stored (.documentHash (Path.text path)) (.ok known)]
      (.error (.notUtf8 path))
  /-- it has no chunks -/
  | empty {bytes : List UInt8} {known : Option String} {text : List Char}
    (hnew : known ≠ some (Sha256.hexDigest bytes)) (htext : decode? bytes = some text)
    (hchunks : chunks g.limits (String.ofList text) = []) :
    Start g path [.read path (.ok bytes), .stored (.documentHash (Path.text path)) (.ok known)]
      (.error (.emptyDocument path))
  /-- its document and its chunks are to be written -/
  | written {bytes : List UInt8} {known : Option String} {text : List Char} (m : Option Instant)
    (now : Instant) {t : List (Exchange Work.interface)} {o : Except IngestError FileOutcome}
    (hnew : known ≠ some (Sha256.hexDigest bytes)) (htext : decode? bytes = some text)
    (h : Traces (g.write (documentOf path (String.ofList text) (Sha256.hexDigest bytes)
      bytes.length m now) (chunks g.limits (String.ofList text))).run t o) :
    Start g path (opening path bytes known m now ++ t) o

theorem start_of_traces_processBytes {bytes : List UInt8} {known : Option String}
    (hnew : known ≠ some (Sha256.hexDigest bytes))
    (h : Traces (g.processBytes path (Sha256.hexDigest bytes) bytes).run t o) :
    Start g path
      (.read path (.ok bytes) :: .stored (.documentHash (Path.text path)) (.ok known) :: t) o := by
  rw [processBytes] at h
  -- no text and no chunks are found out before anything else is asked
  split at h
  · rename_i htext
    obtain ⟨rfl, rfl⟩ := traces_run_throw.mp h
    exact Start.notText hnew htext
  · rename_i text htext
    simp only at h
    split at h
    · rename_i hchunks
      obtain ⟨rfl, rfl⟩ := traces_run_throw.mp h
      exact Start.empty hnew htext hchunks
    · obtain ⟨m, u, rfl, hrest⟩ := of_traces_host_bind (c := .modified path) h
      obtain ⟨now, v, rfl, hwrite⟩ := of_traces_host_bind (c := .now) hrest
      exact Start.written m now hnew htext hwrite

/-- **How far a file gets.** -/
theorem start_of_traces (h : Traces (g.processFile path).run t o) : Start g path t o := by
  rcases traces_run_bind.mp h with ⟨bytes, u, v, rfl, hread, hrest⟩ | ⟨e, hread, rfl⟩
  · obtain ⟨a, ha, hok⟩ := traces_run_orFail.mp hread
    obtain rfl := traces_ask.mp ha
    obtain rfl := mapError_eq_ok_iff.mp hok.symm
    rcases of_traces_stored_bind hrest with ⟨known, w, rfl, hknown⟩ | ⟨f, rfl, rfl⟩
    · split at hknown
      · rename_i hsame
        obtain ⟨rfl, rfl⟩ := traces_run_pure.mp hknown
        cases hsame
        exact Start.unchanged bytes
      · rename_i hnew
        exact start_of_traces_processBytes hnew hknown
    · exact Start.unknown bytes f
  · obtain ⟨a, ha, herror⟩ := traces_run_orFail.mp hread
    obtain rfl := traces_ask.mp ha
    cases a with
    | ok bytes => cases herror
    | error reason =>
      obtain rfl := Except.error.inj herror
      exact Start.unread reason

/-- **The course of a file.** -/
theorem course_of_traces (h : Traces (g.processFile path).run t o) : Course g path t o := by
  rcases start_of_traces h with reason | ⟨bytes, f⟩ | bytes | ⟨hnew, -⟩ | ⟨hnew, -, -⟩ |
    ⟨m, now, hnew, htext, hwrite⟩
  · exact Course.unread reason
  · exact Course.unknown bytes f
  · exact Course.unchanged bytes
  · exact Course.unfit _ _ _ hnew
  · exact Course.unfit _ _ _ hnew
  · rcases of_traces_write hwrite with ⟨f, rfl, rfl⟩ | ⟨id, v, rfl, ⟨hchunks, rfl⟩ |
      ⟨u, e, c, rfl, hchunks, rfl⟩⟩
    · exact Course.unwritten m now _ f hnew
    · obtain ⟨b, u, rfl, hu, hb⟩ := of_traces_writeChunks hchunks
      obtain ⟨n, rfl⟩ := hb rfl
      exact Course.written m now id n hnew ⟨htext, rfl, rfl, rfl⟩ hu
    · obtain ⟨b, u, rfl, hu, -⟩ := of_traces_writeChunks hchunks
      exact Course.broken m now id b e c hnew ⟨htext, rfl, rfl, rfl⟩ hu.fills

theorem blind_of_fills {x : Exchange Work.interface} (hx : x.Fills id) : x.Blind := by
  rcases of_fills hx with ⟨n, r, rfl⟩ | ⟨texts, r, rfl⟩ | ⟨c, v, r, rfl⟩ <;> exact trivial

/-- What follows the reading of a file before its document is written looks at no file's bytes. -/
theorem blind_opening {known : Option String} {m : Option Instant} {now : Instant}
    {x : Exchange Work.interface}
    (hx : x ∈ [.stored (.documentHash (Path.text path)) (.ok known), .modified path m, .now now]) :
    x.Blind := by
  rcases hx with _ | ⟨_, _ | ⟨_, _ | ⟨_, hx⟩⟩⟩
  · exact trivial
  · exact trivial
  · exact trivial
  · cases hx

/-- **A file is read first and only once,** and no other file is. -/
theorem Course.eq_cons (h : Course g path t o) :
    ∃ b u, t = .read path b :: u ∧ ∀ x ∈ u, x.Blind := by
  cases h with
  | unread reason => exact ⟨_, [], rfl, fun _ hx => absurd hx List.not_mem_nil⟩
  | unknown bytes f =>
    refine ⟨_, _, rfl, fun x hx => ?_⟩
    obtain rfl := List.mem_singleton.mp hx
    exact trivial
  | unchanged bytes =>
    refine ⟨_, _, rfl, fun x hx => ?_⟩
    obtain rfl := List.mem_singleton.mp hx
    exact trivial
  | unfit bytes known e hnew =>
    refine ⟨_, _, rfl, fun x hx => ?_⟩
    obtain rfl := List.mem_singleton.mp hx
    exact trivial
  | unwritten m now d f hnew =>
    refine ⟨_, _, rfl, fun x hx => ?_⟩
    rcases List.mem_append.mp hx with hx | hx
    · exact blind_opening hx
    · obtain rfl := List.mem_singleton.mp hx
      exact trivial
  | @written bytes known text m now d id n u hnew hd hu =>
    refine ⟨_, _, rfl, fun x hx => ?_⟩
    rcases List.mem_append.mp hx with hx | hx
    · exact blind_opening hx
    · rcases hx with _ | ⟨_, _ | ⟨_, hx⟩⟩
      · exact trivial
      · exact trivial
      · exact blind_of_fills (hu.fills x hx)
  | @broken bytes known text m now d id b u e c hnew hd hu =>
    refine ⟨_, _, rfl, fun x hx => ?_⟩
    rcases List.mem_append.mp hx with hx | hx
    · exact blind_opening hx
    · rcases hx with _ | ⟨_, _ | ⟨_, hx⟩⟩
      · exact trivial
      · exact trivial
      · rcases List.mem_append.mp hx with hx | hx
        · exact blind_of_fills (hu x hx)
        · obtain rfl := List.mem_singleton.mp hx
          exact trivial

/-- A file whose bytes are new and have chunks gets as far as the writing of its document. -/
theorem traces_processFile {bytes : List UInt8} {known : Option String} {text : List Char}
    {pieces : List Chunk} {m : Option Instant} {now : Instant}
    (hnew : known ≠ some (Sha256.hexDigest bytes)) (htext : decode? bytes = some text)
    (hpieces : chunks g.limits (String.ofList text) = pieces) (hne : pieces ≠ [])
    (h : Traces (g.write (documentOf path (String.ofList text) (Sha256.hexDigest bytes) bytes.length
      m now) pieces).run t o) :
    Traces (g.processFile path).run (opening path bytes known m now ++ t) o := by
  refine traces_run_bind.mpr (Or.inl ⟨bytes, [.read path (.ok bytes)], _, rfl, ?_, ?_⟩)
  · exact traces_run_orFail.mpr ⟨.ok bytes, traces_ask.mpr rfl, rfl⟩
  refine traces_run_bind.mpr
    (Or.inl ⟨known, [.stored (.documentHash (Path.text path)) (.ok known)], _, rfl, ?_, ?_⟩)
  · exact traces_stored.mpr ⟨.ok known, rfl, rfl⟩
  rw [if_neg hnew, processBytes, htext]
  simp only
  rw [hpieces]
  obtain ⟨c, cs, rfl⟩ := List.exists_cons_of_ne_nil hne
  refine traces_run_bind.mpr (Or.inl ⟨m, [.modified path m], _, rfl, ?_, ?_⟩)
  · exact traces_run_lift.mpr ⟨m, traces_ask.mpr rfl, rfl⟩
  refine traces_run_bind.mpr (Or.inl ⟨now, [.now now], _, rfl, ?_, h⟩)
  exact traces_run_lift.mpr ⟨now, traces_ask.mpr rfl, rfl⟩

theorem read_inj {b b' : Except Files.FileError (List UInt8)}
    (h : Exchange.read path b = Exchange.read path b') : b = b' :=
  eq_of_heq (Exchange.mk.inj h).2

/-- The one reading in the course of a file is its first request. -/
theorem Course.eq_cons_of_mem {b : Except Files.FileError (List UInt8)} (h : Course g path t o)
    (hb : .read path b ∈ t) : ∃ u, t = .read path b :: u := by
  obtain ⟨b', u, rfl, hu⟩ := h.eq_cons
  rcases List.mem_cons.mp hb with heq | hmem
  · exact ⟨u, by rw [read_inj heq]⟩
  · exact absurd rfl ((hu _ hmem).not_reads path)

/-! ## What a file does to the hashes in a store -/

section Hashes

variable {R : Store.Call → Prop} {s s' : Memory} {bytes : List UInt8} {known : Option String}
variable {m : Option Instant} {now : Instant} {d : NewDocument}

/-- Before the document is written, nothing happens. -/
theorem of_gives_opening (h : Gives (Serves R) s (opening path bytes known m now ++ t) s') :
    known = s.hash? (Path.text path) ∧ Gives (Serves R) s t s' := by
  obtain ⟨_, hknown, hrest⟩ := of_gives_ok (of_gives_host h)
  exact ⟨hknown, of_gives_host (of_gives_host hrest)⟩

theorem not_writesDocument_of_fills {x : Exchange Work.interface} (hx : x.Fills id) :
    ¬ x.WritesDocument := by
  rcases of_fills hx with ⟨n, r, rfl⟩ | ⟨texts, r, rfl⟩ | ⟨c, v, r, rfl⟩ <;> exact not_false

/-- Of the documents only the one that is written changes while its chunks are. -/
theorem documents_of_gives_writing {b : Store.Reply (.deleteChunks id)}
    (h : Gives (Serves R) s (.stored (.upsertDocument d) (.ok id) ::
      .stored (.deleteChunks id) b :: u) s') (hu : ∀ x ∈ u, x.Fills id) :
    ∃ now, id = (s.upsert d now).1 ∧ s'.documents = (s.upsert d now).2.documents := by
  obtain ⟨now, hid, hrest⟩ := of_gives_ok h
  refine ⟨now, hid, documents_of_gives hrest fun x hx => ?_⟩
  rcases List.mem_cons.mp hx with rfl | hx
  · exact not_false
  · exact not_writesDocument_of_fills (hu x hx)

/-- What is left of the documents when the document of a file has been written, but not yet
cleared. -/
theorem of_gives_opening_writing {b : Store.Reply (.deleteChunks id)}
    (h : Gives (Serves R) s (opening path bytes known m now ++
      .stored (.upsertDocument d) (.ok id) :: .stored (.deleteChunks id) b :: u) s')
    (hs : s.WellFormed) (hu : ∀ x ∈ u, x.Fills id) (hpath : d.path = Path.text path) :
    (∃ e, s'.document? (Path.text path) = some e ∧ e.id = id ∧ e.metadata = d.metadata ∧
      e.title = d.title) ∧ ∀ k, k ≠ Path.text path → s'.document? k = s.document? k := by
  obtain ⟨-, hrest⟩ := of_gives_opening h
  obtain ⟨now', rfl, hdocuments⟩ := documents_of_gives_writing hrest hu
  rw [← hpath]
  refine ⟨⟨s.writtenDocument d now', ?_, rfl, rfl, rfl⟩, fun k hk => ?_⟩
  · rw [document?_congr hdocuments, document?_upsert_self hs]
  · rw [document?_congr hdocuments, document?_upsert_of_ne hs hk]

/-- **A file leaves the hashes alone that are not kept under the text of its path.** -/
theorem Course.hash?_of_ne {k : String} (h : Course g path t o) (hs : s.WellFormed)
    (hg : Gives (Serves R) s t s') (hk : k ≠ Path.text path) : s'.hash? k = s.hash? k := by
  cases h with
  | unread reason => rw [gives_nil.mp (of_gives_host hg)]
  | unknown bytes f => rw [gives_nil.mp (of_gives_error (of_gives_host hg)).2]
  | unchanged bytes =>
    obtain ⟨_, -, hrest⟩ := of_gives_ok (of_gives_host hg)
    rw [gives_nil.mp hrest]
    rfl
  | unfit bytes known e hnew =>
    obtain ⟨_, -, hrest⟩ := of_gives_ok (of_gives_host hg)
    rw [gives_nil.mp hrest]
    rfl
  | unwritten m now d f hnew =>
    obtain ⟨-, hrest⟩ := of_gives_opening hg
    rw [gives_nil.mp (of_gives_error hrest).2]
  | written m now id n hnew hd hu =>
    rw [hash?, (of_gives_opening_writing hg hs hu.fills hd.path_eq).2 k hk, hash?]
  | @broken bytes known text m now d id b u e c hnew hd hu =>
    rw [← List.cons_append, ← List.cons_append, ← List.append_assoc, gives_append] at hg
    obtain ⟨s₁, hwriting, hclear⟩ := hg
    obtain ⟨⟨e, he, hid, -, -⟩, hothers⟩ := of_gives_opening_writing hwriting hs hu hd.path_eq
    have hs₁ := hs.of_gives hwriting
    have hkept : s₁.hash? k = s.hash? k := by rw [hash?, hothers k hk, hash?]
    cases c with
    | error f => rw [gives_nil.mp (of_gives_error hclear).2, hkept]
    | ok a =>
      obtain ⟨now', -, hrest⟩ := of_gives_ok hclear
      rw [gives_nil.mp hrest, ← hkept]
      refine hash?_clearHash_of_ne hs₁ fun f hf hfid => hk ?_
      -- only one document has the key that is cleared
      obtain ⟨hemem, hepath⟩ := mem_of_document? he
      obtain ⟨hfmem, hfpath⟩ := mem_of_document? hf
      rw [← hfpath, ← hepath, hs₁.eq_of_id hfmem hemem (hfid.trans hid.symm)]

/-- **A file that has not failed has its hash in the store.** -/
theorem Course.hash?_of_ok {a : FileOutcome} (h : Course g path t (.ok a)) (hs : s.WellFormed)
    (hg : Gives (Serves R) s t s') :
    ∃ bytes u, t = .read path (.ok bytes) :: u ∧
      s'.hash? (Path.text path) = some (Sha256.hexDigest bytes) := by
  cases h with
  | unchanged bytes =>
    obtain ⟨_, hknown, hrest⟩ := of_gives_ok (of_gives_host hg)
    rw [gives_nil.mp hrest]
    exact ⟨bytes, _, rfl, hknown.symm⟩
  | @written bytes known text m now d id n u hnew hd hu =>
    obtain ⟨⟨e, he, -, hmetadata, -⟩, -⟩ := of_gives_opening_writing hg hs hu.fills hd.path_eq
    refine ⟨bytes, _, rfl, ?_⟩
    rw [hash?, he, Option.bind_some, hmetadata, hd.hash_eq]

/-- **A file is skipped if and only if the store has its hash,** provided that the store answers. -/
theorem Course.skipped_iff (h : Course g path t o) (hg : Gives (Serves R) s t s')
    (hread : .read path (.ok bytes) ∈ t) (hR : ¬ R (.documentHash (Path.text path))) :
    o = .ok .skipped ↔ s.hash? (Path.text path) = some (Sha256.hexDigest bytes) := by
  obtain ⟨v, ht⟩ := h.eq_cons_of_mem hread
  -- what is known of the file is what the store says before anything has happened
  have hnot : ∀ {known : Option String} {bytes' : List UInt8} {v' : List (Exchange Work.interface)},
      known = s.hash? (Path.text path) → known ≠ some (Sha256.hexDigest bytes') →
        .read path (.ok bytes') :: v' = .read path (.ok bytes) :: v →
          s.hash? (Path.text path) ≠ some (Sha256.hexDigest bytes) := by
    rintro _ bytes' v' rfl hnew hcons
    obtain rfl := Except.ok.inj (read_inj (List.cons.inj hcons).1)
    exact hnew
  cases h with
  | unread reason => cases read_inj (List.cons.inj ht).1
  | unknown bytes f => exact absurd (of_gives_error (of_gives_host hg)).1 hR
  | unchanged bytes =>
    obtain rfl := Except.ok.inj (read_inj (List.cons.inj ht).1)
    obtain ⟨_, hknown, -⟩ := of_gives_ok (of_gives_host hg)
    exact iff_of_true rfl hknown.symm
  | unfit bytes known e hnew =>
    obtain ⟨_, hknown, -⟩ := of_gives_ok (of_gives_host hg)
    exact iff_of_false (fun he => nomatch he) (hnot hknown hnew ht)
  | unwritten m now d f hnew =>
    exact iff_of_false (fun he => nomatch he) (hnot (of_gives_opening hg).1 hnew ht)
  | written m now id n hnew hd hu =>
    exact iff_of_false (fun he => nomatch Except.ok.inj he)
      (hnot (of_gives_opening hg).1 hnew ht)
  | broken m now id b e c hnew hd hu =>
    exact iff_of_false (fun he => nomatch he) (hnot (of_gives_opening hg).1 hnew ht)

end Hashes

end Ingestor

end MarkdownIndex
