import MarkdownIndex.Proofs.Ingest.Asked
import MarkdownIndex.Proofs.Ingest.Exit

/-!
# Batches: what is indexed does not depend on their size

The embedder takes chunks in batches, and the size of a batch is nothing but a setting. For an
embedder that goes text by text, and a store that refuses nothing, two runs with different sizes are
compared here: they can differ only in how many chunks are lost when a text has no vector.

* `Faults.textwise` — such an embedder, which may word its failures as it likes.
* `Memory.replaceChunks`, `Memory.untimed` — a store with other chunks of a document, and a store
  without the instants of writing.
* `cut_of_batches` — a batch in the middle of others, by its number.
* `Written`, `written_of_run` — what comes of some batches: the embedder is asked for each of them,
  up to the first with a text that has no vector, and those before it are stored.
* `Written.of_firstFailure` — the number of that batch, and what is stored by then.
* `verdict?`, `Becomes`, `becomes_of_run` — what becomes of a file, with or without its chunks.
* `same_for_all_sizes` — the main result.
-/

namespace MarkdownIndex

open Text Memory World Program

/-! ## An embedder that goes text by text -/

/-- The store refuses nothing, and the embedder gives every text its own vector, but fails if one of
the texts has none. -/
def Faults.textwise (v : String → Option Embedding) : Faults where
  refuses _ := False
  embeds texts r :=
    if ∀ x ∈ texts, (v x).isSome then r = .ok (texts.filterMap v) else ∃ e, r = .error e

variable {v : String → Option Embedding} {w w' : World} {cs ds : List Chunk} {id : Int}
variable {t u : List (Exchange Work.interface)} {s s' : Memory} {path : Path}

theorem exists_embeds_textwise (v : String → Option Embedding) (texts : List String) :
    ∃ r, (Faults.textwise v).embeds texts r := by
  by_cases h : ∀ x ∈ texts, (v x).isSome
  · exact ⟨.ok (texts.filterMap v), (if_pos h).mpr rfl⟩
  · exact ⟨.error (.invalidResponse ""), (if_neg h).mpr ⟨_, rfl⟩⟩

/-- Every chunk has a vector. -/
def Known (v : String → Option Embedding) (cs : List Chunk) : Prop :=
  ∀ c ∈ cs, (v c.content).isSome

/-- Chunks with their vectors, those without one left out. -/
def embedded (v : String → Option Embedding) (cs : List Chunk) : List (Chunk × Embedding) :=
  cs.filterMap fun c => (v c.content).map (c, ·)

theorem known_append : Known v (cs ++ ds) ↔ Known v cs ∧ Known v ds := List.forall_mem_append

theorem embedded_append : embedded v (cs ++ ds) = embedded v cs ++ embedded v ds :=
  List.filterMap_append

theorem Known.length_embedded (h : Known v cs) : (embedded v cs).length = cs.length :=
  List.filterMap_length_eq_length.mpr fun c hc => by rw [Option.isSome_map]; exact h c hc

theorem Known.length_vectors (h : Known v cs) :
    ((textsOf cs).filterMap v).length = cs.length := by
  rw [textsOf, List.filterMap_length_eq_length.mpr (List.forall_mem_map.mpr h), List.length_map]

/-- The vectors that the embedder gives are put to their chunks in order. -/
theorem Known.zip_vectors (h : Known v cs) :
    cs.zip ((textsOf cs).filterMap v) = embedded v cs := by
  induction cs with
  | nil => rfl
  | cons c cs ih =>
    obtain ⟨hc, hcs⟩ := List.forall_mem_cons.mp h
    obtain ⟨x, hx⟩ := Option.isSome_iff_exists.mp hc
    have hcons : embedded v (c :: cs) = (c, x) :: embedded v cs := by
      rw [embedded, List.filterMap_cons, hx]
      rfl
    rw [textsOf, List.map_cons, List.filterMap_cons_some hx, ← textsOf, List.zip_cons_cons, ih hcs,
      hcons]

/-- Chunks are asked for together: the answer is their vectors, or a failure. -/
theorem embeds_textsOf {r : Except EmbeddingError (List Embedding)} :
    (Faults.textwise v).embeds (textsOf cs) r ↔
      (Known v cs ∧ r = .ok ((textsOf cs).filterMap v)) ∨ ¬ Known v cs ∧ ∃ e, r = .error e := by
  have hiff : (∀ x ∈ textsOf cs, (v x).isSome) ↔ Known v cs := List.forall_mem_map
  by_cases h : Known v cs
  · simp only [Faults.textwise, if_pos (hiff.mpr h), h, true_and, not_true, false_and, or_false]
  · simp only [Faults.textwise, if_neg (mt hiff.mp h), h, false_and, not_false_iff, true_and,
      false_or]

/-! ## Stores with more chunks -/

namespace Memory

/-- Add chunks with their vectors. -/
def insertChunks (s : Memory) (id : Int) (cvs : List (Chunk × Embedding)) : Memory :=
  cvs.foldl (fun s cv => s.insertChunk id cv.1 cv.2) s

variable {cvs : List (Chunk × Embedding)}

theorem insertChunks_append (ds : List (Chunk × Embedding)) :
    s.insertChunks id (cvs ++ ds) = (s.insertChunks id cvs).insertChunks id ds :=
  List.foldl_append

theorem gains_insertChunks :
    Gains id (cvs.map (Function.uncurry Chunk.passage)) s (s.insertChunks id cvs) := by
  induction cvs generalizing s with
  | nil => exact gains_nil s
  | cons cv cvs ih => exact (gains_insertChunk cv.1 cv.2).append ih

theorem chunkInserts_insertChunks :
    (s.insertChunks id cvs).chunkInserts = s.chunkInserts + cvs.length := by
  induction cvs generalizing s with
  | nil => rfl
  | cons cv cvs ih =>
    rw [insertChunks, List.foldl_cons, ← insertChunks, ih, List.length_cons]
    exact Nat.add_right_comm s.chunkInserts 1 cvs.length

/-- Put chunks with their vectors in the place of those that a document has. -/
def replaceChunks (s : Memory) (id : Int) (cvs : List (Chunk × Embedding)) : Memory :=
  (s.deleteChunks id).2.insertChunks id cvs

theorem passages_replaceChunks :
    (s.replaceChunks id cvs).passages id = cvs.map (Function.uncurry Chunk.passage) := by
  rw [replaceChunks, gains_insertChunks.passages_eq, passages_deleteChunks, List.nil_append]

theorem touches_replaceChunks : Touches id s (s.replaceChunks id cvs) :=
  touches_deleteChunks.trans gains_insertChunks.touches

theorem chunkInserts_replaceChunks :
    (s.replaceChunks id cvs).chunkInserts = s.chunkInserts + cvs.length :=
  chunkInserts_insertChunks

@[simp] theorem chunkInserts_upsert {d : NewDocument} {now : Instant} :
    (s.upsert d now).2.chunkInserts = s.chunkInserts := by
  rw [upsert]
  split
  · rfl
  · rfl

end Memory

/-! ## Stores without their instants -/

/-- A document without the instants of its writing. -/
def StoredDocument.untimed (e : StoredDocument) : StoredDocument :=
  { e with metadata := { e.metadata with processedAt := 0 }, updatedAt := 0 }

namespace Memory

/-- A store without the instants of writing. -/
def untimed (s : Memory) : Memory :=
  { s with documents := s.documents.map StoredDocument.untimed }

theorem untimed_insertChunks {cvs : List (Chunk × Embedding)} :
    (s.insertChunks id cvs).untimed = s.untimed.insertChunks id cvs := by
  induction cvs generalizing s with
  | nil => rfl
  | cons cv cvs ih => exact ih

theorem untimed_replaceChunks {cvs : List (Chunk × Embedding)} :
    (s.replaceChunks id cvs).untimed = s.untimed.replaceChunks id cvs :=
  untimed_insertChunks

/-- The key of a document depends on its path alone, and what is written on the instants only as far
as they are stored. -/
theorem upsert_untimed {d : NewDocument} {x : Float} (now now' : Instant) :
    (s.upsert { d with metadata := { d.metadata with processedAt := x } } now).1 =
        (s.upsert d now').1 ∧
      (s.upsert { d with metadata := { d.metadata with processedAt := x } } now).2.untimed =
        (s.upsert d now').2.untimed := by
  rcases hd : s.document? d.path with _ | old
  · simp only [upsert, hd, untimed, List.map_append]
    exact ⟨trivial, rfl⟩
  · simp only [upsert, hd, untimed, List.map_map]
    refine ⟨trivial, ?_⟩
    congr 1
    refine List.map_congr_left fun e _ => ?_
    simp only [Function.comp_apply]
    split
    · rfl
    · rfl

end Memory

namespace Ingestor

variable {g : Ingestor} {r : Except IngestError Unit} {o : Except IngestError FileOutcome}
variable {bs good rest : List (List Chunk)} {bad : List Chunk} {qs : List (List String)}
variable {size : Nat}

/-! ## Batches by their numbers -/

theorem ne_nil_of_batches (h : batches size cs = good ++ bad :: rest) : cs ≠ [] := by
  rintro rfl
  rw [batches] at h
  exact List.append_ne_nil_of_right_ne_nil good (List.cons_ne_nil bad rest) h.symm

/-- **A batch in the middle of others, by its number.** Those before it are the chunks up to as many
batches. -/
theorem cut_of_batches (h : batches size cs = good ++ bad :: rest) :
    bad = (cs.drop (max size 1 * good.length)).take (max size 1) ∧
      good.flatten = cs.take (max size 1 * good.length) ∧
      good = (List.range good.length).map fun k =>
        (cs.drop (max size 1 * k)).take (max size 1) := by
  induction good generalizing cs with
  | nil =>
    rw [batches_of_ne_nil size (ne_nil_of_batches h)] at h
    exact ⟨(List.cons.inj h).1.symm, List.take_zero.symm, rfl⟩
  | cons b good ih =>
    rw [batches_of_ne_nil size (ne_nil_of_batches h)] at h
    obtain ⟨hb, hrest⟩ := List.cons.inj h
    obtain ⟨hbad, hflatten, hgood⟩ := ih hrest
    have hstep : ∀ k, (cs.drop (max size 1)).drop (max size 1 * k) =
        cs.drop (max size 1 * (k + 1)) := by
      intro k
      rw [List.drop_drop, Nat.mul_succ, Nat.add_comm]
    refine ⟨?_, ?_, ?_⟩
    · rw [hbad, hstep, List.length_cons]
    · rw [List.flatten_cons, hflatten, ← hb, List.length_cons, Nat.mul_succ, Nat.add_comm,
        List.take_add]
    · rw [List.length_cons, List.range_succ_eq_map, List.map_cons, List.map_map, Nat.mul_zero,
        List.drop_zero, hb]
      refine congrArg (b :: ·) (hgood.trans (List.map_congr_left fun k _ => ?_))
      rw [hstep]
      rfl

/-! ## Writing batches -/

/-- What comes of writing some batches into a store: what the embedder is asked for, how it ends,
and the store after it. -/
inductive Written (v : String → Option Embedding) (id : Int) (s : Memory) :
    List (List Chunk) → List (List String) → Except IngestError Unit → Memory → Prop
  /-- all chunks are stored -/
  | all {bs : List (List Chunk)} (h : Known v bs.flatten) :
    Written v id s bs (bs.map textsOf) (.ok ()) (s.insertChunks id (embedded v bs.flatten))
  /-- the batches before the first one with a chunk that has no vector are stored -/
  | part {good rest : List (List Chunk)} {bad : List Chunk} (reason : EmbeddingError)
    (hgood : Known v good.flatten) (hbad : ¬ Known v bad) :
    Written v id s (good ++ bad :: rest) ((good ++ [bad]).map textsOf)
      (.error (.embedding (firstIndex bad) reason)) (s.insertChunks id (embedded v good.flatten))

theorem Written.nil (s : Memory) : Written v id s [] [] (.ok ()) s :=
  .all fun _ hc => absurd hc List.not_mem_nil

/-- The first batch may fail at once. -/
theorem written_of_not_known {b : List Chunk} (hb : ¬ Known v b) (reason : EmbeddingError)
    (bs : List (List Chunk)) (s : Memory) :
    Written v id s (b :: bs) [textsOf b] (.error (.embedding (firstIndex b) reason)) s := by
  have hnone : Known v ([] : List (List Chunk)).flatten := fun _ hc => absurd hc List.not_mem_nil
  exact .part reason hnone hb

theorem Written.cons {b : List Chunk} (hb : Known v b)
    (h : Written v id (s.insertChunks id (embedded v b)) bs qs r s') :
    Written v id s (b :: bs) (textsOf b :: qs) r s' := by
  cases h with
  | all hbs =>
    rw [← insertChunks_append, ← embedded_append, ← List.flatten_cons, ← List.map_cons]
    exact .all (known_append.mpr ⟨hb, hbs⟩)
  | part reason hgood hbad =>
    rw [← insertChunks_append, ← embedded_append, ← List.flatten_cons, ← List.map_cons,
      ← List.cons_append]
    exact .part reason (known_append.mpr ⟨hb, hgood⟩) hbad

/-- It ends well exactly if every chunk has a vector. -/
theorem Written.ok_iff (h : Written v id s bs qs r s') : r = .ok () ↔ Known v bs.flatten := by
  cases h with
  | all h => exact iff_of_true rfl h
  | part reason hgood hbad =>
    refine iff_of_false (fun he => nomatch he) fun hknown => hbad ?_
    rw [List.flatten_append, List.flatten_cons] at hknown
    exact (known_append.mp (known_append.mp hknown).2).1

/-- Then all of them are stored. -/
theorem Written.eq_of_ok (h : Written v id s bs qs (.ok ()) s') :
    s' = s.insertChunks id (embedded v bs.flatten) := by
  cases h with
  | all h => rfl

/-! ## The answers of such a world -/

theorem of_gives_store {c : Store.Call} {a : Store.Reply c}
    (h : Gives (Answers (.textwise v)) w (.stored c a :: t) w') :
    ∃ now, a = .ok (w.memory.perform now c).1 ∧
      Gives (Answers (.textwise v)) ⟨w.files, (w.memory.perform now c).2⟩ t w' := by
  obtain ⟨w₁, ha, hrest⟩ := gives_cons.mp h
  rcases ends_store.mp (ends_ask.mpr ha) with ⟨now, rfl, rfl⟩ | ⟨f, hrefuses, -⟩
  · exact ⟨now, rfl, hrest⟩
  · exact hrefuses.elim

theorem of_gives_machine {c : Host.Call} {a : Host.Reply c}
    (h : Gives (Answers (.textwise v)) w (⟨.host c, a⟩ :: t) w') :
    ∃ now, a = Host.answer w.files now c ∧ Gives (Answers (.textwise v)) w t w' := by
  obtain ⟨w₁, ha, hrest⟩ := gives_cons.mp h
  obtain ⟨now, rfl, rfl⟩ := ends_host.mp (ends_ask.mpr ha)
  exact ⟨now, rfl, hrest⟩

theorem of_gives_embedded {texts : List String} {a : Except EmbeddingError (List Embedding)}
    (h : Gives (Answers (.textwise v)) w (.embedded texts a :: t) w') :
    (Faults.textwise v).embeds texts a ∧ Gives (Answers (.textwise v)) w t w' := by
  obtain ⟨w₁, ha, hrest⟩ := gives_cons.mp h
  obtain ⟨hembeds, rfl⟩ := ends_embed.mp (ends_ask.mpr ha)
  exact ⟨hembeds, hrest⟩

/-! ## Runs -/

theorem of_run_insertAll {cvs : List (Chunk × Embedding)} (h : Traces (insertAll id cvs).run t r)
    (hg : Gives (Answers (.textwise v)) w t w') :
    r = .ok () ∧ w' = ⟨w.files, w.memory.insertChunks id cvs⟩ := by
  induction cvs generalizing t w with
  | nil =>
    obtain ⟨rfl, rfl⟩ := traces_run_pure.mp h
    exact ⟨rfl, gives_nil.mp hg⟩
  | cons cv cvs ih =>
    obtain ⟨c, x⟩ := cv
    rcases of_traces_stored_bind h with ⟨a, u, rfl, hrest⟩ | ⟨f, rfl, rfl⟩
    · obtain ⟨now, -, hg⟩ := of_gives_store hg
      exact ih hrest hg
    · obtain ⟨now, hf, -⟩ := of_gives_store hg
      cases hf

theorem of_run_delay {first : Bool} (h : Traces (g.delay first).run t r)
    (hg : Gives (Answers (.textwise v)) w t w') :
    r = .ok () ∧ w' = w := by
  rw [delay] at h
  split at h
  · obtain ⟨rfl, rfl⟩ := traces_run_pure.mp h
    exact ⟨rfl, gives_nil.mp hg⟩
  · obtain ⟨a, ha, rfl⟩ := traces_run_lift.mp h
    obtain rfl := traces_ask.mp ha
    obtain ⟨now, -, hg⟩ := of_gives_machine (c := .pause g.requestDelay) hg
    exact ⟨rfl, gives_nil.mp hg⟩

/-- A batch is stored if each of its chunks has a vector. -/
theorem of_run_writeBatch (h : Traces (writeBatch id cs).run t r)
    (hg : Gives (Answers (.textwise v)) w t w') :
    (Known v cs ∧ r = .ok () ∧ w' = ⟨w.files, w.memory.insertChunks id (embedded v cs)⟩) ∨
      ¬ Known v cs ∧ w' = w ∧ ∃ reason, r = .error (.embedding (firstIndex cs) reason) := by
  rcases traces_run_bind.mp h with ⟨vs, u₁, u₂, rfl, hembed, hrest⟩ | ⟨e, hembed, rfl⟩
  · obtain ⟨a, ha, hok⟩ := traces_run_orFail.mp hembed
    obtain rfl := traces_ask.mp ha
    obtain rfl := mapError_eq_ok_iff.mp hok.symm
    obtain ⟨hembeds, hinsert⟩ := of_gives_embedded hg
    rcases embeds_textsOf.mp hembeds with ⟨hknown, hvs⟩ | ⟨-, e, he⟩
    · obtain rfl := Except.ok.inj hvs
      rw [if_pos hknown.length_vectors, hknown.zip_vectors] at hrest
      obtain ⟨rfl, rfl⟩ := of_run_insertAll hrest hinsert
      exact Or.inl ⟨hknown, rfl, rfl⟩
    · cases he
  · obtain ⟨a, ha, herror⟩ := traces_run_orFail.mp hembed
    obtain rfl := traces_ask.mp ha
    obtain ⟨hembeds, hnothing⟩ := of_gives_embedded hg
    rcases embeds_textsOf.mp hembeds with ⟨-, rfl⟩ | ⟨hknown, reason, rfl⟩
    · cases herror
    · obtain rfl := Except.error.inj herror
      exact Or.inr ⟨hknown, gives_nil.mp hnothing, reason, rfl⟩

/-- **Batches are asked for one after the other,** up to the first with a chunk that has no
vector. -/
theorem written_of_run {first : Bool} (h : Traces (g.writeBatches id first bs).run t r)
    (hg : Gives (Answers (.textwise v)) w t w') :
    Written v id w.memory bs (t.flatMap Exchange.texts) r w'.memory := by
  induction bs generalizing first t w with
  | nil =>
    obtain ⟨rfl, rfl⟩ := traces_run_pure.mp h
    obtain rfl := gives_nil.mp hg
    exact Written.nil _
  | cons b bs ih =>
    rcases traces_run_bind.mp h with ⟨a, u₁, u₂, rfl, hdelay, hwrite⟩ | ⟨e, hdelay, rfl⟩
    · obtain ⟨w₁, hg₁, hg₂⟩ := gives_append.mp hg
      obtain ⟨-, rfl⟩ := of_run_delay hdelay hg₁
      rw [List.flatMap_append, texts_delay hdelay, List.nil_append]
      rcases traces_run_bind.mp hwrite with ⟨a, u₃, u₄, rfl, hbatch, hrest⟩ | ⟨e, hbatch, rfl⟩
      · obtain ⟨w₂, hg₃, hg₄⟩ := gives_append.mp hg₂
        rcases of_run_writeBatch hbatch hg₃ with ⟨hb, -, rfl⟩ | ⟨-, -, reason, he⟩
        · rw [List.flatMap_append, texts_writeBatch hbatch]
          exact (ih hrest hg₄).cons hb
        · cases he
      · rcases of_run_writeBatch hbatch hg₂ with ⟨-, he, -⟩ | ⟨hb, rfl, reason, he⟩
        · cases he
        · obtain rfl := Except.error.inj he
          rw [texts_writeBatch hbatch]
          exact written_of_not_known hb reason bs _
    · obtain ⟨he, -⟩ := of_run_delay hdelay hg
      cases he

/-! ## The batch that fails -/

/-- The position of the first chunk that has no vector. -/
structure FirstFailure (v : String → Option Embedding) (cs : List Chunk) (j : Nat) : Prop where
  /-- the chunk there has none -/
  unknown : ∃ c, cs[j]? = some c ∧ v c.content = none
  /-- those before it have one -/
  known : Known v (cs.take j)

/-- The first chunk without a vector is in the batch that fails, and its position gives the number
of that batch. -/
theorem FirstFailure.div_eq {j n q : Nat} (h : FirstFailure v cs j)
    (hgood : Known v (cs.take (n * q))) (hbad : ¬ Known v ((cs.drop (n * q)).take n)) :
    j / n = q := by
  obtain ⟨c, hc, hnone⟩ := h.unknown
  refine Nat.div_eq_of_lt_le ?_ ?_
  · by_contra hlt
    have hmem : c ∈ cs.take (n * q) := by
      refine List.mem_of_getElem? (i := j) ?_
      rw [List.getElem?_take_of_lt (by rw [Nat.mul_comm]; exact Nat.lt_of_not_le hlt), hc]
    have hsome := hgood c hmem
    rw [hnone] at hsome
    cases hsome
  · by_contra hle
    refine hbad fun d hd => h.known d ?_
    have hmem : d ∈ cs.take (n * q + n) := by
      rw [List.take_add]
      exact List.mem_append_right _ hd
    refine (List.take_prefix_take_left ?_).subset hmem
    rw [Nat.succ_mul, Nat.mul_comm] at hle
    exact Nat.le_of_not_lt hle

/-- **The batch that fails is the one with the first chunk that has no vector.** The embedder is
asked for the batches up to it, and those before it are stored. -/
theorem Written.of_firstFailure {j n : Nat} (hn : n = max size 1) (hj : FirstFailure v cs j)
    (h : Written v id s (batches size cs) qs r s') :
    (∃ reason, r = .error (.embedding (firstIndex (cs.drop (n * (j / n)))) reason)) ∧
      qs = ((List.range (j / n + 1)).map fun k => textsOf ((cs.drop (n * k)).take n)) ∧
      n * (j / n) < cs.length ∧ Known v (cs.take (n * (j / n))) ∧
      s' = s.insertChunks id (embedded v (cs.take (n * (j / n)))) := by
  subst hn
  generalize hbs : batches size cs = bs at h
  cases h with
  | all h =>
    obtain ⟨c, hc, hnone⟩ := hj.unknown
    rw [← hbs, flatten_batches] at h
    have hsome := h c (List.mem_of_getElem? hc)
    rw [hnone] at hsome
    cases hsome
  | @part good rest bad reason hgood hbad =>
    obtain ⟨rfl, hflatten, hrange⟩ := cut_of_batches hbs
    rw [hflatten] at hgood ⊢
    rw [hj.div_eq hgood hbad]
    refine ⟨⟨reason, ?_⟩, ?_, ?_, hgood, rfl⟩
    · rw [firstIndex_take (by omega)]
    · rw [List.range_succ, List.map_append, List.map_append, hrange, List.map_map,
        List.length_map, List.length_range]
      rfl
    · by_contra hle
      refine hbad fun d hd => ?_
      rw [List.drop_of_length_le (Nat.le_of_not_lt hle), List.take_nil] at hd
      cases hd

/-! ## One file -/

/-- A run of ingestion over a file of a world: what it asks, with the answers, how it ends, and the
world after it. -/
structure Run (v : String → Option Embedding) (g : Ingestor) (path : Path) (w : World)
    (t : List (Exchange Work.interface)) (o : Except IngestError FileOutcome) (w' : World) :
    Prop where
  /-- with these answers it asks this and ends so -/
  traces : Traces (g.processFile path).run t o
  /-- the world gives these answers -/
  gives : Gives (Answers (.textwise v)) w t w'

/-- There is a run. -/
theorem exists_run (v : String → Option Embedding) (g : Ingestor) (path : Path) (w : World) :
    ∃ t o w', Run v g path w t o w' := by
  obtain ⟨o, w', h⟩ := exists_ends (exists_embeds_textwise v) (g.processFile path).run w
  obtain ⟨t, htraces, hgives⟩ := ends_iff_traces.mp h
  exact ⟨t, o, w', htraces, hgives⟩

/-- How a file ends that does not get as far as its document. -/
def verdict? (limits : ChunkLimits) (path : Path) (w : World) :
    Option (Except IngestError FileOutcome) :=
  match Files.read w.files path with
  | .error reason => some (.error (.read path reason))
  | .ok bytes =>
    if w.memory.hash? (Path.text path) = some (Sha256.hexDigest bytes) then some (.ok .skipped)
    else
      match decode? bytes with
      | none => some (.error (.notUtf8 path))
      | some text =>
        match chunks limits (String.ofList text) with
        | [] => some (.error (.emptyDocument path))
        | _ :: _ => none

/-- A new text with chunks has no verdict. -/
theorem verdict?_eq_none {limits : ChunkLimits} {bytes : List UInt8} {text : List Char}
    (hread : Files.read w.files path = .ok bytes)
    (hnew : w.memory.hash? (Path.text path) ≠ some (Sha256.hexDigest bytes))
    (htext : decode? bytes = some text)
    (hchunks : chunks limits (String.ofList text) ≠ []) : verdict? limits path w = none := by
  obtain ⟨c, cs, hcs⟩ := List.exists_cons_of_ne_nil hchunks
  simp only [verdict?, hread, if_neg hnew, htext, hcs]

/-- What comes of a document and its chunks, when both are to be written to a store: what has been
asked, how it ends, and the store after it. -/
inductive Issue (v : String → Option Embedding) (size : Nat) (d : NewDocument) (cs : List Chunk)
    (s : Memory) : List (Exchange Work.interface) → Except IngestError FileOutcome → Memory → Prop
  /-- the document is written, and all its chunks -/
  | written {t : List (Exchange Work.interface)} {s' : Memory} (now : Instant)
    (hupsert : .stored (.upsertDocument d) (.ok (s.upsert d now).1) ∈ t)
    (h : Written v (s.upsert d now).1 ((s.upsert d now).2.deleteChunks (s.upsert d now).1).2
      (batches size cs) (t.flatMap Exchange.texts) (.ok ()) s') :
    Issue v size d cs s t (.ok (.processed cs.length)) s'
  /-- the document is written, and some of its chunks; it loses its hash -/
  | broken {t : List (Exchange Work.interface)} {e : IngestError} {s' : Memory} (now : Instant)
    (hupsert : .stored (.upsertDocument d) (.ok (s.upsert d now).1) ∈ t)
    (h : Written v (s.upsert d now).1 ((s.upsert d now).2.deleteChunks (s.upsert d now).1).2
      (batches size cs) (t.flatMap Exchange.texts) (.error e) s') :
    Issue v size d cs s t (.error e) (s'.clearHash (s.upsert d now).1)

theorem written_of_run_writeChunks (h : Traces (g.writeChunks id cs).run t r)
    (hg : Gives (Answers (.textwise v)) w t w') :
    Written v id (w.memory.deleteChunks id).2 (batches g.batchSize cs)
      (t.flatMap Exchange.texts) r w'.memory := by
  rcases of_traces_stored_bind h with ⟨n, u, rfl, hrest⟩ | ⟨f, rfl, rfl⟩
  · obtain ⟨now, -, hbatches⟩ := of_gives_store hg
    exact written_of_run hrest hbatches
  · obtain ⟨now, hf, -⟩ := of_gives_store hg
    cases hf

theorem issue_of_run {d : NewDocument} (h : Traces (g.write d cs).run t o)
    (hg : Gives (Answers (.textwise v)) w t w') :
    Issue v g.batchSize d cs w.memory t o w'.memory := by
  rcases of_traces_write h with ⟨f, rfl, rfl⟩ | ⟨id, u, rfl, ⟨hchunks, rfl⟩ |
    ⟨u, e, c, rfl, hchunks, rfl⟩⟩
  · obtain ⟨now, hf, -⟩ := of_gives_store hg
    cases hf
  · obtain ⟨now, hid, hrest⟩ := of_gives_store hg
    obtain rfl := Except.ok.inj hid
    exact .written now List.mem_cons_self (written_of_run_writeChunks hchunks hrest)
  · obtain ⟨now, hid, hrest⟩ := of_gives_store hg
    obtain rfl := Except.ok.inj hid
    obtain ⟨w₁, hg₁, hclear⟩ := gives_append.mp hrest
    obtain ⟨now', -, hnothing⟩ := of_gives_store hclear
    obtain rfl := gives_nil.mp hnothing
    have hasked : (u ++ [Exchange.stored (.clearDocumentHash _) c]).flatMap
        Exchange.texts = u.flatMap Exchange.texts := by
      rw [List.flatMap_append]
      exact List.append_nil _
    refine .broken now List.mem_cons_self ?_
    rw [List.flatMap_cons]
    exact hasked.symm ▸ written_of_run_writeChunks hchunks hg₁

/-- What has been asked before does not matter, if the embedder has not been asked. -/
theorem Issue.cons {d : NewDocument} {x : Exchange Work.interface} (hx : x.texts = [])
    (h : Issue v size d cs s t o s') : Issue v size d cs s (x :: t) o s' := by
  have hasked : (x :: t).flatMap Exchange.texts = t.flatMap Exchange.texts := by
    rw [List.flatMap_cons, hx, List.nil_append]
  cases h with
  | written now hupsert h =>
    exact .written now (List.mem_cons_of_mem x hupsert) (hasked.symm ▸ h)
  | broken now hupsert h =>
    exact .broken now (List.mem_cons_of_mem x hupsert) (hasked.symm ▸ h)

/-- What becomes of a file: what has been asked, how it ends, and the world after it. -/
inductive Becomes (v : String → Option Embedding) (g : Ingestor) (path : Path) (w : World) :
    List (Exchange Work.interface) → Except IngestError FileOutcome → World → Prop
  /-- it has its verdict, and nothing is written -/
  | judged {t : List (Exchange Work.interface)} {o : Except IngestError FileOutcome}
    (h : verdict? g.limits path w = some o) : Becomes v g path w t o w
  /-- its document and its chunks are to be written -/
  | issued {bytes : List UInt8} {text : List Char} {t : List (Exchange Work.interface)}
    {o : Except IngestError FileOutcome} {w' : World} (now : Instant)
    (hnone : verdict? g.limits path w = none) (hread : Files.read w.files path = .ok bytes)
    (htext : decode? bytes = some text)
    (h : Issue v g.batchSize (documentOf path (String.ofList text) (Sha256.hexDigest bytes)
      bytes.length (Files.modified? w.files path) now) (chunks g.limits (String.ofList text))
      w.memory t o w'.memory) : Becomes v g path w t o w'

theorem Becomes.cons {x : Exchange Work.interface} (hx : x.texts = [])
    (h : Becomes v g path w t o w') : Becomes v g path w (x :: t) o w' := by
  cases h with
  | judged h => exact .judged h
  | issued now hnone hread htext h => exact .issued now hnone hread htext (h.cons hx)

theorem becomes_of_run_processBytes {bytes : List UInt8}
    (hread : Files.read w.files path = .ok bytes)
    (hnew : w.memory.hash? (Path.text path) ≠ some (Sha256.hexDigest bytes))
    (h : Traces (g.processBytes path (Sha256.hexDigest bytes) bytes).run t o)
    (hg : Gives (Answers (.textwise v)) w t w') : Becomes v g path w t o w' := by
  rw [processBytes] at h
  -- no text and no chunks are found out before anything else is asked
  split at h
  · rename_i htext
    obtain ⟨rfl, rfl⟩ := traces_run_throw.mp h
    obtain rfl := gives_nil.mp hg
    refine .judged ?_
    simp only [verdict?, hread, if_neg hnew, htext]
  · rename_i text htext
    simp only at h
    split at h
    · rename_i hchunks
      obtain ⟨rfl, rfl⟩ := traces_run_throw.mp h
      obtain rfl := gives_nil.mp hg
      refine .judged ?_
      simp only [verdict?, hread, if_neg hnew, htext, hchunks]
    · rename_i hchunks
      obtain ⟨m, u, rfl, hrest⟩ := of_traces_host_bind (c := .modified path) h
      obtain ⟨now, u, rfl, hwrite⟩ := of_traces_host_bind (c := .now) hrest
      obtain ⟨_, rfl, hg₁⟩ := of_gives_machine (c := .modified path) hg
      obtain ⟨_, -, hg₂⟩ := of_gives_machine (c := .now) hg₁
      have hnone := verdict?_eq_none hread hnew htext hchunks
      have hissued : Becomes v g path w u o w' :=
        .issued now hnone hread htext (issue_of_run hwrite hg₂)
      exact (hissued.cons rfl).cons rfl

/-- **What becomes of a file.** -/
theorem becomes_of_run (h : Run v g path w t o w') : Becomes v g path w t o w' := by
  obtain ⟨htraces, hg⟩ := h
  rcases traces_run_bind.mp htraces with ⟨bytes, u₁, u₂, rfl, hask, hrest⟩ | ⟨e, hask, rfl⟩
  · obtain ⟨a, ha, hok⟩ := traces_run_orFail.mp hask
    obtain rfl := traces_ask.mp ha
    obtain rfl := mapError_eq_ok_iff.mp hok.symm
    obtain ⟨_, hread, hg₁⟩ := of_gives_machine (c := .read path) hg
    have hbytes : Files.read w.files path = .ok bytes := hread.symm
    rcases of_traces_stored_bind hrest with ⟨known, u₃, rfl, hknown⟩ | ⟨f, rfl, rfl⟩
    · obtain ⟨_, hhash, hg₂⟩ := of_gives_store hg₁
      obtain rfl : known = w.memory.hash? (Path.text path) := Except.ok.inj hhash
      split at hknown
      · rename_i hsame
        obtain ⟨rfl, rfl⟩ := traces_run_pure.mp hknown
        obtain rfl := gives_nil.mp hg₂
        refine .judged ?_
        simp only [verdict?, hbytes, if_pos hsame]
      · rename_i hnew
        exact ((becomes_of_run_processBytes hbytes hnew hknown hg₂).cons rfl).cons rfl
    · obtain ⟨_, hf, -⟩ := of_gives_store hg₁
      cases hf
  · obtain ⟨a, ha, herror⟩ := traces_run_orFail.mp hask
    obtain rfl := traces_ask.mp ha
    obtain ⟨_, hread, hnothing⟩ := of_gives_machine (c := .read path) hg
    cases a with
    | ok bytes => cases herror
    | error reason =>
      obtain rfl := Except.error.inj herror
      have hfile : Files.read w.files path = .error reason := hread.symm
      obtain rfl := gives_nil.mp hnothing
      refine .judged ?_
      simp only [verdict?, hfile]

/-! ## Sizes compared -/

/-- All is well with a document exactly if each of its chunks has a vector. -/
theorem Issue.ok_iff {d : NewDocument} {a : FileOutcome} (h : Issue v size d cs s t o s') :
    o = .ok a ↔ a = .processed cs.length ∧ Known v cs := by
  cases h with
  | written now hupsert h =>
    have hknown := h.ok_iff.mp rfl
    rw [flatten_batches] at hknown
    constructor
    · exact fun ha => ⟨(Except.ok.inj ha).symm, hknown⟩
    · rintro ⟨rfl, -⟩
      rfl
  | broken now hupsert h =>
    refine iff_of_false (fun ha => nomatch ha) ?_
    rintro ⟨-, hknown⟩
    rw [← flatten_batches size cs] at hknown
    cases h.ok_iff.mpr hknown

/-- Then the store is the same but for the instants, whatever the size. -/
theorem Issue.untimed_eq {d d' : NewDocument} {x : Float} {size' : Nat} {a a' : FileOutcome}
    {s₁ s₂ : Memory} (hd : d = { d' with metadata := { d'.metadata with processedAt := x } })
    (h : Issue v size d cs s t (.ok a) s₁) (h' : Issue v size' d' cs s u (.ok a') s₂) :
    s₁.untimed = s₂.untimed := by
  cases h with
  | written now hupsert h =>
    cases h' with
    | written now' hupsert' h' =>
      subst hd
      obtain ⟨hid, hstore⟩ := upsert_untimed (s := s) (d := d') (x := x) now now'
      rw [h.eq_of_ok, h'.eq_of_ok, flatten_batches, flatten_batches, ← replaceChunks,
        ← replaceChunks, untimed_replaceChunks, untimed_replaceChunks, hid, hstore]

/-- A file has failed at a chunk that has no vector, with batches of a size: how it ends, what the
store holds of it then, and what the embedder has been asked for. -/
structure Stopped (v : String → Option Embedding) (path : Path) (cs : List Chunk) (n j : Nat)
    (s : Memory) (t : List (Exchange Work.interface)) (o : Except IngestError FileOutcome)
    (s' : Memory) : Prop where
  /-- it fails at the start of the batch with that chunk -/
  outcome : ∃ reason, o = .error (.embedding (n * (j / n) : Nat) reason)
  /-- its chunks are those before that batch with their vectors, and no other document has other
  chunks than before -/
  stored : ∃ d id, d.path = Path.text path ∧ .stored (.upsertDocument d) (.ok id) ∈ t ∧
    s'.passages id = (embedded v (cs.take (n * (j / n)))).map (Function.uncurry Chunk.passage) ∧
    (s'.passages id).length = n * (j / n) ∧ ∀ i, i ≠ id → s'.chunksOf i = s.chunksOf i
  /-- so many chunks have been added -/
  added : s'.chunkInserts = s.chunkInserts + n * (j / n)
  /-- the embedder has been asked for the batches up to that one, in order -/
  asked : t.flatMap Exchange.texts =
    (List.range (j / n + 1)).map fun k => textsOf ((cs.drop (n * k)).take n)

/-- A document with a chunk that has no vector stops there. -/
theorem Issue.stopped {d : NewDocument} {limits : ChunkLimits} {text : String} {j : Nat}
    (hpath : d.path = Path.text path) (hj : FirstFailure v (chunks limits text) j)
    (h : Issue v size d (chunks limits text) s t o s') :
    Stopped v path (chunks limits text) (max size 1) j s t o s' := by
  cases h with
  | written now hupsert h =>
    obtain ⟨⟨reason, he⟩, -⟩ := h.of_firstFailure rfl hj
    cases he
  | @broken e s₁ now hupsert h =>
    obtain ⟨⟨reason, he⟩, hasked, hlt, hknown, rfl⟩ := h.of_firstFailure rfl hj
    obtain rfl := Except.error.inj he
    have hlength := hknown.length_embedded
    rw [List.length_take_of_le (Nat.le_of_lt hlt)] at hlength
    -- the hash that is lost is no matter of chunks, so they are as they have been added
    refine ⟨⟨reason, by rw [firstIndex_drop_chunks hlt]⟩,
      ⟨d, _, hpath, hupsert, passages_replaceChunks, ?_, fun i hi => ?_⟩, ?_, hasked⟩
    · refine (congrArg List.length passages_replaceChunks).trans ?_
      rw [List.length_map, hlength]
    · exact (touches_replaceChunks.chunksOf_eq i hi).trans (chunksOf_upsert i)
    · refine chunkInserts_replaceChunks.trans ?_
      rw [chunkInserts_upsert, hlength]

/-- Whatever the sizes, a file ends well in both runs or in neither. -/
theorem Becomes.alike {m n : Nat} {o' : Except IngestError FileOutcome} {w₁ w₂ : World}
    (h : Becomes v { g with batchSize := m } path w t o w₁)
    (h' : Becomes v { g with batchSize := n } path w u o' w₂) (a : FileOutcome) :
    (o = .ok a ↔ o' = .ok a) ∧ (o = .ok a → w₁.memory.untimed = w₂.memory.untimed) := by
  rcases h with hverdict | ⟨now, hnone, hread, htext, hissue⟩
  · rcases h' with hverdict' | ⟨now', hnone', -, -, -⟩
    · obtain rfl := Option.some.inj (hverdict.symm.trans hverdict')
      exact ⟨Iff.rfl, fun _ => rfl⟩
    · cases hverdict.symm.trans hnone'
  · rcases h' with hverdict' | ⟨now', -, hread', htext', hissue'⟩
    · cases hnone.symm.trans hverdict'
    · obtain rfl := Except.ok.inj (hread.symm.trans hread')
      obtain rfl := Option.some.inj (htext.symm.trans htext')
      have hiff : o = .ok a ↔ o' = .ok a := hissue.ok_iff.trans hissue'.ok_iff.symm
      refine ⟨hiff, fun ha => ?_⟩
      obtain rfl := hiff.mp ha
      subst ha
      exact hissue.untimed_eq (x := now.seconds) rfl hissue'

/-- **What is indexed does not depend on the size of batches.** For an embedder that goes text by
text, and a store that refuses nothing: there is a run for every size; two runs end well alike or
not at all, and then their stores are the same but for the instants of writing. When a chunk has no
vector, the file fails at the start of its batch, and the chunks before that are stored. -/
theorem same_for_all_sizes (v : String → Option Embedding) (g : Ingestor) (path : Path)
    (w : World) (m n : Nat) :
    (∃ t o w', Run v { g with batchSize := m } path w t o w') ∧
    (∀ t o w₁ t' o' w₂, Run v { g with batchSize := m } path w t o w₁ →
      Run v { g with batchSize := n } path w t' o' w₂ →
      ∀ a, (o = .ok a ↔ o' = .ok a) ∧ (o = .ok a → w₁.memory.untimed = w₂.memory.untimed)) ∧
    ∀ bytes text j t o w', Files.read w.files path = .ok bytes →
      w.memory.hash? (Path.text path) ≠ some (Sha256.hexDigest bytes) → decode? bytes = some text →
      FirstFailure v (chunks g.limits (String.ofList text)) j →
      Run v { g with batchSize := m } path w t o w' →
      Stopped v path (chunks g.limits (String.ofList text)) (max m 1) j w.memory t o w'.memory := by
  refine ⟨exists_run v _ path w, fun t o w₁ t' o' w₂ hrun hrun' =>
    (becomes_of_run hrun).alike (becomes_of_run hrun'), ?_⟩
  intro bytes text j t o w' hread hnew htext hj hrun
  obtain ⟨c, hc, -⟩ := hj.unknown
  have hchunks : chunks g.limits (String.ofList text) ≠ [] :=
    List.ne_nil_of_mem (List.mem_of_getElem? hc)
  have hnone := verdict?_eq_none hread hnew htext hchunks
  rcases becomes_of_run hrun with hverdict | ⟨now, -, hread', htext', hissue⟩
  · cases hnone.symm.trans hverdict
  · obtain rfl := Except.ok.inj (hread.symm.trans hread')
    obtain rfl := Option.some.inj (htext.symm.trans htext')
    exact hissue.stopped rfl hj

/-! ## A file that stops -/

/-- A directory with one file, which holds three headings, and an empty store. -/
def headingsWorld : World :=
  ⟨Files.flatDisk [(sampleName, .file [35, 32, 65, 10, 35, 32, 66, 10, 35, 32, 67] 0)], {}⟩

/-- Every text but the last heading has a vector. -/
def vectorBut (x : String) : Option Embedding := if x = "# C" then none else some []

theorem chunks_headingsWorld :
    chunks sampleIngestor.limits (String.ofList "# A\n# B\n# C".toList) =
      [⟨0, "# A", ⟨"A", 1, .completeSection, 3, 3⟩⟩, ⟨1, "# B", ⟨"B", 1, .completeSection, 3, 3⟩⟩,
        ⟨2, "# C", ⟨"C", 1, .completeSection, 3, 3⟩⟩] := by decide +kernel

/-- In batches of two the last of three headings is alone in the second batch; the first one has
been stored by then. -/
theorem same_for_all_sizes_headings :
    ∃ t o w', Run vectorBut { sampleIngestor with batchSize := 2 } sampleName headingsWorld t o w' ∧
      (∃ reason, o = .error (.embedding 2 reason)) ∧ w'.memory.chunkInserts = 2 ∧
      t.flatMap Exchange.texts = [["# A", "# B"], ["# C"]] := by
  have hread : Files.read headingsWorld.files sampleName =
      .ok [35, 32, 65, 10, 35, 32, 66, 10, 35, 32, 67] := by decide +kernel
  have hnew : headingsWorld.memory.hash? (Path.text sampleName) ≠
      some (Sha256.hexDigest [35, 32, 65, 10, 35, 32, 66, 10, 35, 32, 67]) :=
    (Option.some_ne_none _).symm
  have htext : decode? [35, 32, 65, 10, 35, 32, 66, 10, 35, 32, 67] =
      some "# A\n# B\n# C".toList := by decide +kernel
  have hfirst : FirstFailure vectorBut
      (chunks sampleIngestor.limits (String.ofList "# A\n# B\n# C".toList)) 2 := by
    rw [chunks_headingsWorld]
    exact ⟨⟨_, rfl, rfl⟩, by simp [Known, vectorBut]⟩
  obtain ⟨⟨t, o, w', hrun⟩, -, hstopped⟩ :=
    same_for_all_sizes vectorBut sampleIngestor sampleName headingsWorld 2 1
  have hend := hstopped _ _ 2 t o w' hread hnew htext hfirst hrun
  refine ⟨t, o, w', hrun, hend.outcome, hend.added, ?_⟩
  rw [hend.asked, chunks_headingsWorld]
  rfl

end Ingestor

end MarkdownIndex
