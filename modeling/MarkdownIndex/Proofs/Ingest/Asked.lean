import MarkdownIndex.Proofs.Ingest.Trace

/-!
# Requests for vectors: which texts are asked for together

Whatever the answers are, a file has its chunks asked for from the first on, in batches of one size,
until there is no chunk left or a batch fails. Only the last batch may be smaller.

* `Exchange.texts`, `textsOf` — the texts that the embedder is asked for, and those of chunks.
* `InBatches`, `inBatches_of_first` — texts in batches of a size, and that chunks come in them.
* `texts_writeBatch`, `texts_writeBatches` — a batch is asked for once, and after it the next one.
* `Asked`, `asked_of_traces` — the requests in the course of a file.
-/

namespace MarkdownIndex

open Text Program

/-- The texts that the embedder is asked for, if it is. -/
def Exchange.texts (x : Exchange Work.interface) : List (List String) :=
  match x.call with
  | .embed texts => [texts]
  | _ => []

/-- The texts of some chunks. -/
def textsOf (cs : List Chunk) : List String := cs.map (·.content)

namespace Ingestor

variable {g : Ingestor} {path : Path} {id : Int} {size : Nat} {cs : List Chunk}
variable {bs : List (List Chunk)} {t : List (Exchange Work.interface)}
variable {r : Except IngestError Unit} {o : Except IngestError FileOutcome}

/-! ## Sizes of batches -/

/-- The first batch of chunks. -/
theorem batches_of_ne_nil (size : Nat) (h : cs ≠ []) :
    batches size cs = cs.take (max size 1) :: batches size (cs.drop (max size 1)) := by
  obtain ⟨c, cs, rfl⟩ := List.exists_cons_of_ne_nil h
  obtain ⟨n, hn⟩ : ∃ n, max size 1 = n + 1 := ⟨max size 1 - 1, by omega⟩
  obtain rfl : size - 1 = n := by omega
  rw [batches, hn, List.take_succ_cons, List.drop_succ_cons]

theorem flatten_texts_batches (size : Nat) (cs : List Chunk) :
    ((batches size cs).map textsOf).flatten = textsOf cs :=
  List.map_flatten.symm.trans (congrArg textsOf (flatten_batches size cs))

/-- Lists of texts are consecutive ones from a list, from the first text on and so many at a time;
only the last of them may have less, but has some. -/
structure InBatches (size : Nat) (texts : List String) (qs : List (List String)) : Prop where
  /-- one after the other they are the first texts -/
  flatten : qs.flatten <+: texts
  /-- none is empty, and none has more -/
  length_le : ∀ q ∈ qs, 1 ≤ q.length ∧ q.length ≤ size
  /-- all but the last have the size -/
  length_eq : ∀ q ∈ qs.dropLast, q.length = size

theorem inBatches_nil (texts : List String) : InBatches size texts [] where
  flatten := List.nil_prefix
  length_le := fun _ hq => absurd hq List.not_mem_nil
  length_eq := fun _ hq => absurd hq List.not_mem_nil

/-- The texts of batches, up to one of them. -/
theorem inBatches_of_first {qs : List (List String)} (hsize : 1 ≤ size)
    (h : qs <+: (batches size cs).map textsOf) : InBatches size (textsOf cs) qs := by
  -- the first batch leaves the other chunks to the batches after it
  induction qs generalizing cs with
  | nil => exact inBatches_nil _
  | cons q qs ih =>
    by_cases hne : cs = []
    · subst hne
      rw [batches] at h
      exact absurd (List.prefix_nil.mp h) (List.cons_ne_nil q qs)
    · rw [batches_of_ne_nil size hne, Nat.max_eq_left hsize, List.map_cons] at h
      obtain ⟨rfl, hrest⟩ := List.cons_prefix_cons.mp h
      have hlater := ih hrest
      have hlength : (textsOf (cs.take size)).length = min size cs.length := by
        rw [textsOf, List.length_map, List.length_take]
      have hpos : 1 ≤ cs.length := List.length_pos_iff.mpr hne
      refine ⟨?_, ?_, ?_⟩
      · rw [List.flatten_cons]
        have hsplit : textsOf cs = textsOf (cs.take size) ++ textsOf (cs.drop size) := by
          rw [textsOf, textsOf, textsOf, ← List.map_append, List.take_append_drop]
        rw [hsplit]
        exact (List.prefix_append_right_inj _).mpr hlater.flatten
      · intro q hq
        rcases List.mem_cons.mp hq with rfl | hq
        · omega
        · exact hlater.length_le q hq
      · intro q hq
        cases qs with
        | nil => exact absurd hq List.not_mem_nil
        | cons q' qs =>
          rcases List.mem_cons.mp hq with rfl | hq
          · -- another batch follows, and so the chunks are more than fill this one
            have hnext : cs.drop size ≠ [] := by
              intro hnil
              rw [hnil, batches] at hrest
              exact absurd (List.prefix_nil.mp hrest) (List.cons_ne_nil _ _)
            have hmore : size < cs.length := by
              rw [Ne, List.drop_eq_nil_iff] at hnext
              omega
            omega
          · exact hlater.length_eq q hq

/-! ## Requests of a run -/

theorem texts_stored_cons {c : Store.Call} {a : Store.Reply c} :
    (Exchange.stored c a :: t).flatMap Exchange.texts = t.flatMap Exchange.texts := rfl

theorem texts_insertAll {cvs : List (Chunk × Embedding)} (h : Traces (insertAll id cvs).run t r) :
    t.flatMap Exchange.texts = [] := by
  induction cvs generalizing t with
  | nil =>
    obtain ⟨-, rfl⟩ := traces_run_pure.mp h
    rfl
  | cons cv cvs ih =>
    obtain ⟨c, v⟩ := cv
    rcases of_traces_stored_bind h with ⟨a, u, rfl, hrest⟩ | ⟨f, rfl, -⟩
    · rw [texts_stored_cons, ih hrest]
    · rfl

theorem texts_delay {first : Bool} (h : Traces (g.delay first).run t r) :
    t.flatMap Exchange.texts = [] := by
  rw [delay] at h
  split at h
  · obtain ⟨-, rfl⟩ := traces_run_pure.mp h
    rfl
  · obtain ⟨a, ha, -⟩ := traces_run_lift.mp h
    obtain rfl := traces_ask.mp ha
    rfl

/-- A batch is asked for once. -/
theorem texts_writeBatch (h : Traces (writeBatch id cs).run t r) :
    t.flatMap Exchange.texts = [textsOf cs] := by
  rcases traces_run_bind.mp h with ⟨vs, u, v, rfl, hembed, hrest⟩ | ⟨e, hembed, -⟩
  · obtain ⟨a, ha, -⟩ := traces_run_orFail.mp hembed
    obtain rfl := traces_ask.mp ha
    have hnone : v.flatMap Exchange.texts = [] := by
      split at hrest
      · exact texts_insertAll hrest
      · obtain ⟨-, rfl⟩ := traces_run_throw.mp hrest
        rfl
    rw [List.flatMap_append, hnone]
    rfl
  · obtain ⟨a, ha, -⟩ := traces_run_orFail.mp hembed
    obtain rfl := traces_ask.mp ha
    rfl

/-- **Batches are asked for one after the other,** up to one that fails. -/
theorem texts_writeBatches {first : Bool} (h : Traces (g.writeBatches id first bs).run t r) :
    t.flatMap Exchange.texts <+: bs.map textsOf ∧
      (r = .ok () → t.flatMap Exchange.texts = bs.map textsOf) := by
  induction bs generalizing first t with
  | nil =>
    obtain ⟨-, rfl⟩ := traces_run_pure.mp h
    exact ⟨List.nil_prefix, fun _ => rfl⟩
  | cons b bs ih =>
    rcases traces_run_bind.mp h with ⟨a, u₁, u₂, rfl, hdelay, hwrite⟩ | ⟨e, hdelay, rfl⟩
    · rw [List.flatMap_append, texts_delay hdelay, List.nil_append, List.map_cons]
      rcases traces_run_bind.mp hwrite with ⟨a, u₃, u₄, rfl, hbatch, hrest⟩ | ⟨e, hbatch, rfl⟩
      · rw [List.flatMap_append, texts_writeBatch hbatch, List.singleton_append]
        obtain ⟨hfirst, hall⟩ := ih hrest
        exact ⟨List.cons_prefix_cons.mpr ⟨rfl, hfirst⟩, fun hr => by rw [hall hr]⟩
      · rw [texts_writeBatch hbatch]
        exact ⟨List.cons_prefix_cons.mpr ⟨rfl, List.nil_prefix⟩, fun hr => nomatch hr⟩
    · rw [texts_delay hdelay]
      exact ⟨List.nil_prefix, fun hr => nomatch hr⟩

theorem texts_writeChunks (h : Traces (g.writeChunks id cs).run t r) :
    t.flatMap Exchange.texts <+: (batches g.batchSize cs).map textsOf ∧
      (r = .ok () → t.flatMap Exchange.texts = (batches g.batchSize cs).map textsOf) := by
  rcases of_traces_stored_bind h with ⟨n, u, rfl, hrest⟩ | ⟨e, rfl, rfl⟩
  · rw [texts_stored_cons]
    exact texts_writeBatches hrest
  · exact ⟨List.nil_prefix, fun hr => nomatch hr⟩

theorem texts_opening {bytes : List UInt8} {known : Option String} {m : Option Instant}
    {now : Instant} : (opening path bytes known m now).flatMap Exchange.texts = [] := rfl

/-- What is asked for in the course of a file. -/
inductive Asked (limits : ChunkLimits) (size : Nat) (path : Path)
    (t : List (Exchange Work.interface)) (o : Except IngestError FileOutcome) : Prop
  /-- nothing, and the file is not processed -/
  | nothing (h : t.flatMap Exchange.texts = []) (ho : ∀ n, o ≠ .ok (.processed n))
  /-- the chunks of its text in batches, and all of them if it is processed -/
  | chunks {bytes : List UInt8} {text : List Char} (hread : .read path (.ok bytes) ∈ t)
    (htext : decode? bytes = some text)
    (h : InBatches size (textsOf (chunks limits (String.ofList text)))
      (t.flatMap Exchange.texts))
    (hall : ∀ n, o = .ok (.processed n) →
      (t.flatMap Exchange.texts).flatten = textsOf (chunks limits (String.ofList text)))

/-- **The requests for a file,** whatever the answers are. -/
theorem asked_of_traces (hsize : 1 ≤ g.batchSize) (h : Traces (g.processFile path).run t o) :
    Asked g.limits g.batchSize path t o := by
  rcases start_of_traces h with reason | ⟨bytes, f⟩ | bytes | ⟨-, -⟩ | ⟨-, -, -⟩ |
    ⟨m, now, -, htext, hwrite⟩
  · exact Asked.nothing rfl fun _ ho => nomatch ho
  · exact Asked.nothing rfl fun _ ho => nomatch ho
  · exact Asked.nothing rfl fun _ ho => nomatch ho
  · exact Asked.nothing rfl fun _ ho => nomatch ho
  · exact Asked.nothing rfl fun _ ho => nomatch ho
  · rcases of_traces_write hwrite with ⟨f, rfl, rfl⟩ | ⟨id, v, rfl, ⟨hchunks, rfl⟩ |
      ⟨u, e, c, rfl, hchunks, rfl⟩⟩
    · exact Asked.nothing rfl fun _ ho => nomatch ho
    · obtain ⟨hfirst, hall⟩ := texts_writeChunks hchunks
      refine Asked.chunks List.mem_cons_self htext (inBatches_of_first hsize hfirst) fun _ _ => ?_
      rw [List.flatMap_append, texts_opening, List.nil_append, texts_stored_cons, hall rfl,
        flatten_texts_batches]
    · obtain ⟨hfirst, -⟩ := texts_writeChunks hchunks
      refine Asked.chunks List.mem_cons_self htext ?_ fun _ ho => nomatch ho
      rw [List.flatMap_append, texts_opening, List.nil_append, texts_stored_cons,
        List.flatMap_append]
      exact (List.append_nil (u.flatMap Exchange.texts)).symm ▸ inBatches_of_first hsize hfirst

end Ingestor

end MarkdownIndex
