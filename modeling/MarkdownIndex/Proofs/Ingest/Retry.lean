import MarkdownIndex.Proofs.Certificate
import MarkdownIndex.Proofs.Ingest.Trace

/-!
# Retries: what a failure half-way leaves for the next pass

A document is written with its hash before its chunks are. When a later step fails, the hash is
cleared, so that the next pass takes the file up again. But clearing is itself a request that the
store can refuse, and nobody looks at the answer.

* `Exchange.Writes`, `Exchange.KeepsHash` — a document has been written; a hash has not been
  cleared though it should have been.
* `Course.hash?_of_writes` — the hash that a file leaves behind that fails after its document has
  been written.
* `skipped_again_iff` — the next pass skips such a file if and only if its hash was not cleared.
-/

namespace MarkdownIndex

open Text Memory Program

/-- A document has been written. -/
def Exchange.Writes : Exchange Work.interface → Prop
  | ⟨.store (.upsertDocument _), Except.ok _⟩ => True
  | _ => False

/-- The store has refused to clear a hash. -/
def Exchange.KeepsHash : Exchange Work.interface → Prop
  | ⟨.store (.clearDocumentHash _), Except.error _⟩ => True
  | _ => False

namespace Ingestor

variable {g : Ingestor} {path : Path} {bytes : List UInt8} {id : Int} {e : IngestError}
variable {t u : List (Exchange Work.interface)} {o : Except IngestError FileOutcome}
variable {R R' : Store.Call → Prop} {s s₁ s₂ : Memory}

/-! ## After a failure half-way -/

theorem not_keepsHash_of_fills {x : Exchange Work.interface} (hx : x.Fills id) :
    ¬ x.KeepsHash := by
  rcases of_fills hx with ⟨n, r, rfl⟩ | ⟨texts, r, rfl⟩ | ⟨c, v, r, rfl⟩ <;> exact not_false

/-- What is asked before the document of a file is written concerns no document. -/
theorem not_writes_opening {known : Option String} {m : Option Instant} {now : Instant} :
    ∀ x ∈ opening path bytes known m now, ¬ x.Writes ∧ ¬ x.KeepsHash :=
  forall_mem_opening.mpr ⟨⟨not_false, not_false⟩, ⟨not_false, not_false⟩,
    ⟨not_false, not_false⟩, ⟨not_false, not_false⟩⟩

/-- A failure after the writing of the document is one in the course of which its hash is cleared,
or is to be. -/
theorem Course.broken_of_writes (h : Course g path t (.error e)) (hw : ∃ x ∈ t, x.Writes) :
    ∃ bytes known m now d id b v c, d.path = Path.text path ∧
      d.metadata.fileHash = some (Sha256.hexDigest bytes) ∧ (∀ x ∈ v, x.Fills id) ∧
      t = opening path bytes known m now ++ .stored (.upsertDocument d) (.ok id) ::
        .stored (.deleteChunks id) b :: (v ++ [.stored (.clearDocumentHash id) c]) := by
  obtain ⟨x, hx, hwrites⟩ := hw
  cases h with
  | unread reason =>
    obtain rfl := List.mem_singleton.mp hx
    exact hwrites.elim
  | unknown bytes f =>
    rcases hx with _ | ⟨_, _ | ⟨_, hx⟩⟩
    · exact hwrites.elim
    · exact hwrites.elim
    · cases hx
  | unfit bytes known e hnew =>
    rcases hx with _ | ⟨_, _ | ⟨_, hx⟩⟩
    · exact hwrites.elim
    · exact hwrites.elim
    · cases hx
  | unwritten m now d f hnew =>
    rcases List.mem_append.mp hx with hx | hx
    · exact absurd hwrites (not_writes_opening x hx).1
    · obtain rfl := List.mem_singleton.mp hx
      exact hwrites.elim
  | @broken bytes known text m now d id b v e c hnew hd hv =>
    exact ⟨bytes, known, m, now, d, id, b, v, c, hd.path_eq, hd.hash_eq, hv, rfl⟩

/-- **The hash that a file leaves behind that fails half-way:** none, unless the store refuses to
clear it. -/
theorem Course.hash?_of_writes (h : Course g path t (.error e)) (hs : s.WellFormed)
    (hg : Gives (Serves R) s t s₁) (hread : .read path (.ok bytes) ∈ t)
    (hw : ∃ x ∈ t, x.Writes) :
    ((∃ x ∈ t, x.KeepsHash) → s₁.hash? (Path.text path) = some (Sha256.hexDigest bytes)) ∧
      ((∀ x ∈ t, ¬ x.KeepsHash) → s₁.hash? (Path.text path) = none) := by
  obtain ⟨v', ht⟩ := h.eq_cons_of_mem hread
  obtain ⟨bytes', known, m, now, d, id, b, v, c, hpath, hhash, hv, rfl⟩ := h.broken_of_writes hw
  obtain rfl := Except.ok.inj (read_inj (List.cons.inj ht).1)
  rw [← List.cons_append, ← List.cons_append, ← List.append_assoc, gives_append] at hg
  obtain ⟨s', hwriting, hclear⟩ := hg
  obtain ⟨⟨f, hf, hid, hmetadata, -⟩, -⟩ := of_gives_opening_writing hwriting hs hv hpath
  have hlast : ∀ {x : Exchange Work.interface}, x ∈ [.stored (.clearDocumentHash id) c] →
      x = .stored (.clearDocumentHash id) c := List.mem_singleton.mp
  cases c with
  | ok a =>
    obtain ⟨now', -, hrest⟩ := of_gives_ok hclear
    refine ⟨fun hkeeps => ?_, fun _ => ?_⟩
    · -- only the last request can be a refusal to clear, and it is none
      obtain ⟨x, hx, hkeeps⟩ := hkeeps
      rcases List.mem_append.mp hx with hx | hx
      · exact absurd hkeeps (not_writes_opening x hx).2
      · rcases hx with _ | ⟨_, _ | ⟨_, hx⟩⟩
        · exact hkeeps.elim
        · exact hkeeps.elim
        · rcases List.mem_append.mp hx with hx | hx
          · exact absurd hkeeps (not_keepsHash_of_fills (hv x hx))
          · rw [hlast hx] at hkeeps
            exact hkeeps.elim
    · rw [gives_nil.mp hrest]
      exact hash?_clearHash_of_id (hs.of_gives hwriting) hf hid
  | error r =>
    refine ⟨fun _ => ?_, fun hnone => ?_⟩
    · rw [gives_nil.mp (of_gives_error hclear).2, hash?, hf, Option.bind_some, hmetadata, hhash]
    · refine absurd trivial (hnone (.stored (.clearDocumentHash id) (.error r)) ?_)
      simp

/-- **A file that has failed half-way is taken up again if and only if its hash was cleared.** Say
that a file fails after its document has been written, whatever else the store refuses and whatever
the embedder answers; and that it is read with the same bytes in the next pass, in which the store
says what it knows of it. Then it is skipped if and only if the store has refused to clear its
hash. -/
theorem skipped_again_iff (hs : s.WellFormed) (h : Traces (g.processFile path).run t (.error e))
    (hg : Gives (Serves R) s t s₁) (hread : .read path (.ok bytes) ∈ t)
    (hw : ∃ x ∈ t, x.Writes) (hnext : Traces (g.processFile path).run u o)
    (hgnext : Gives (Serves R') s₁ u s₂) (hreread : .read path (.ok bytes) ∈ u)
    (hanswers : ¬ R' (.documentHash (Path.text path))) :
    o = .ok .skipped ↔ ∃ x ∈ t, x.KeepsHash := by
  rw [(course_of_traces hnext).skipped_iff hgnext hreread hanswers]
  obtain ⟨hkept, hcleared⟩ := (course_of_traces h).hash?_of_writes hs hg hread hw
  refine ⟨fun hhash => ?_, hkept⟩
  by_contra hnone
  push Not at hnone
  exact Option.some_ne_none _ (hhash.symm.trans (hcleared hnone))

/-! ## A store that refuses to clear -/

/-- What is asked of the file of the sample world when the store refuses everything after the
writing of its document. -/
def refusedTrace (f : Failure) : List (Exchange Work.interface) :=
  opening sampleName [35, 32, 65] none none 0 ++
    [.stored (.upsertDocument sampleDocument) (.ok (1 : Int)),
      .stored (.deleteChunks 1) (.error f), .stored (.clearDocumentHash 1) (.error f)]

theorem traces_refusedTrace (f : Failure) :
    Traces (sampleIngestor.processFile sampleName).run (refusedTrace f) (.error (.store f)) := by
  refine traces_processFile (Option.some_ne_none _).symm decode?_sampleWorld chunks_sampleWorld
    (List.cons_ne_nil _ _) ?_
  refine traces_run_bind.mpr
    (Or.inl ⟨(1 : Int), [_], _, rfl, traces_stored.mpr ⟨.ok (1 : Int), rfl, rfl⟩, ?_⟩)
  refine traces_run_tryCatch.mpr (Or.inr ⟨.store f, [_], _, rfl, ?_, ?_⟩)
  · refine traces_run_bind.mpr (Or.inr ⟨.store f, ?_, rfl⟩)
    exact traces_run_bind.mpr (Or.inr ⟨.store f, traces_stored.mpr ⟨.error f, rfl, rfl⟩, rfl⟩)
  · refine traces_run_bind.mpr
      (Or.inl ⟨.error f, [_], [], rfl, ?_, traces_run_throw.mpr ⟨rfl, rfl⟩⟩)
    exact traces_run_lift.mpr ⟨.error f, traces_ask.mpr rfl, rfl⟩

theorem writes_refusedTrace (f : Failure) : ∃ x ∈ refusedTrace f, x.Writes :=
  ⟨.stored (.upsertDocument sampleDocument) (.ok (1 : Int)), by simp [refusedTrace], trivial⟩

/-- The next pass asks no more of the file than its bytes and its hash. -/
def skippedTrace : List (Exchange Work.interface) :=
  [.read sampleName (.ok [35, 32, 65]),
    .stored (.documentHash (Path.text sampleName)) (.ok (some (Sha256.hexDigest [35, 32, 65])))]

theorem traces_skippedTrace :
    Traces (sampleIngestor.processFile sampleName).run skippedTrace (.ok .skipped) := by
  refine traces_run_bind.mpr (Or.inl ⟨[35, 32, 65], [_], [_], rfl, ?_, ?_⟩)
  · exact traces_run_orFail.mpr ⟨.ok [35, 32, 65], traces_ask.mpr rfl, rfl⟩
  refine traces_run_bind.mpr
    (Or.inl ⟨some (Sha256.hexDigest [35, 32, 65]), [_], [], rfl, ?_, ?_⟩)
  · exact traces_stored.mpr ⟨.ok (some (Sha256.hexDigest [35, 32, 65])), rfl, rfl⟩
  · rw [if_pos rfl]
    exact traces_run_pure.mpr ⟨rfl, rfl⟩

/-- The store after it: the document is there with its hash, though none of its chunks are. -/
def refusedMemory : Memory := (({} : Memory).upsert sampleDocument 0).2

theorem gives_refusedTrace (f : Failure) :
    Gives (Serves fun c => c ≠ .documentHash (Path.text sampleName)) {} (refusedTrace f)
      refusedMemory := by
  refine .cons (.host _ _ _) (.cons (.store _ 0 _) (.cons (.host _ _ _) (.cons (.host _ _ _) ?_)))
  refine .cons (.store _ 0 _) (.cons (.refused _ _ f ?_) (.cons (.refused _ _ f ?_) (.nil _)))
  · exact fun h => nomatch h
  · exact fun h => nomatch h

theorem gives_skippedTrace :
    Gives (Serves fun c => c ≠ .documentHash (Path.text sampleName)) refusedMemory skippedTrace
      refusedMemory := by
  refine .cons (.host _ _ _) ?_
  have hhash : refusedMemory.hash? (Path.text sampleName) = some (Sha256.hexDigest [35, 32, 65]) :=
    hash?_upsert_self wellFormed_empty
  refine gives_cons.mpr ⟨refusedMemory, serves_store.mpr (Or.inl ⟨0, ?_, rfl⟩), .nil _⟩
  exact congrArg Except.ok hhash.symm

/-- The sample file fails half-way and is skipped in the next pass, so the store has refused to
clear its hash. -/
theorem skipped_again_refused :
    Traces (sampleIngestor.processFile sampleName).run skippedTrace (.ok .skipped) ∧
      Gives (Serves fun c => c ≠ .documentHash (Path.text sampleName)) refusedMemory skippedTrace
        refusedMemory ∧
      ∃ x ∈ refusedTrace ⟨"no space", []⟩, x.KeepsHash := by
  refine ⟨traces_skippedTrace, gives_skippedTrace, ?_⟩
  have hread : .read sampleName (.ok [35, 32, 65]) ∈ refusedTrace ⟨"no space", []⟩ :=
    List.mem_cons_self
  have hiff := skipped_again_iff wellFormed_empty (traces_refusedTrace ⟨"no space", []⟩)
    (gives_refusedTrace ⟨"no space", []⟩) hread (writes_refusedTrace _) traces_skippedTrace
    gives_skippedTrace List.mem_cons_self (fun h => h rfl)
  exact hiff.mp rfl

/-- **Not every file that has failed half-way is taken up again:** the store can refuse to take
chunks away and then refuse to clear the hash. -/
theorem not_always_retried :
    ¬ ∀ (g : Ingestor) (path : Path) (bytes : List UInt8) (R : Store.Call → Prop)
      (s s₁ s₂ : Memory) (t u : List (Exchange Work.interface)) (e : IngestError)
      (o : Except IngestError FileOutcome), s.WellFormed →
      Traces (g.processFile path).run t (.error e) → Gives (Serves R) s t s₁ →
      .read path (.ok bytes) ∈ t → (∃ x ∈ t, x.Writes) →
      Traces (g.processFile path).run u o → Gives (Serves R) s₁ u s₂ →
      .read path (.ok bytes) ∈ u → o ≠ .ok .skipped := by
  intro hretried
  exact hretried sampleIngestor sampleName [35, 32, 65]
    (fun c => c ≠ .documentHash (Path.text sampleName)) {} refusedMemory refusedMemory
    (refusedTrace ⟨"no space", []⟩) skippedTrace (.store ⟨"no space", []⟩) (.ok .skipped)
    wellFormed_empty (traces_refusedTrace _) (gives_refusedTrace _) List.mem_cons_self
    (writes_refusedTrace _) traces_skippedTrace gives_skippedTrace List.mem_cons_self rfl

end Ingestor

end MarkdownIndex
