import MarkdownIndex.Proofs.Chunk.Origin
import MarkdownIndex.Proofs.Ingest.Retry
import MarkdownIndex.Proofs.Store.Holding

/-!
# Exits: what a file leaves behind, however it ends

Ingestion of a file can end in many ways, some of them in the middle of a batch. For each of them
this says what is in the store afterwards, whatever the store refuses and whatever the embedder
answers.

* `Exchange.inserted`, `Exchange.answered` — the chunks that have been added with their vectors, and
  the texts that have been answered with theirs, told from the trace alone.
* `Filled`, `Halted` — the traces that add chunks: all of them, or some up to a request that makes
  an end of it. `Stop` says which requests those are, and at which chunks.
* `gains_of_gives` — what is added to a document is in the store.
* `Rewritten` — a store that holds something else of one path, under the same key.
* `Exit`, `exit_of_traces` — the exits of a file with what each of them leaves.
-/

namespace MarkdownIndex

open Text Memory Program

/-! ## Chunks with their vectors -/

/-- The chunk that has been added to a document, with its vector, if one has. -/
def Exchange.inserted (id : Int) : Exchange Work.interface → List (Chunk × Embedding)
  | ⟨.store (.insertChunk j c v), Except.ok _⟩ => if j = id then [(c, v)] else []
  | _ => []

/-- The texts that the embedder has answered, each with its vector. -/
def Exchange.answered : Exchange Work.interface → List (String × Embedding)
  | ⟨.embed texts, Except.ok vs⟩ => texts.zip vs
  | _ => []

/-- The request is to clear a hash. -/
def Exchange.clears (x : Exchange Work.interface) : Bool :=
  match x.call with
  | .store (.clearDocumentHash _) => true
  | _ => false

namespace Memory

variable {s s' : Memory} {R : Store.Call → Prop} {t : List (Exchange Work.interface)} {id : Int}

theorem gains_of_serves {x : Exchange Work.interface} (h : Serves R s x.call x.reply s')
    (hx : x.Fills id) :
    Gains id ((x.inserted id).map (Function.uncurry Chunk.passage)) s s' := by
  rcases of_fills hx with ⟨n, r, rfl⟩ | ⟨texts, r, rfl⟩ | ⟨c, v, r, rfl⟩
  · cases h
    exact gains_nil s
  · cases h
    exact gains_nil s
  · rcases serves_store.mp h with ⟨now, rfl, rfl⟩ | ⟨f, -, rfl, rfl⟩
    · rw [Exchange.inserted, if_pos rfl]
      exact gains_insertChunk c v
    · exact gains_nil s'

/-- **What is added to a document is in the store,** behind what was there, and nothing else has
changed. -/
theorem gains_of_gives (h : Gives (Serves R) s t s') (ht : ∀ x ∈ t, x.Fills id) :
    Gains id ((t.flatMap (Exchange.inserted id)).map (Function.uncurry Chunk.passage)) s s' := by
  induction h with
  | nil s => exact gains_nil s
  | @cons x s s₁ s₂ t hx rest ih =>
    obtain ⟨hfills, hrest⟩ := List.forall_mem_cons.mp ht
    rw [List.flatMap_cons, List.map_append]
    exact (gains_of_serves hx hfills).append (ih hrest)

end Memory

namespace Ingestor

variable {g : Ingestor} {path : Path} {id : Int} {size : Nat} {cs ds : List Chunk}
variable {vs ws : List Embedding} {t u : List (Exchange Work.interface)} {e : IngestError}
variable {r : Except IngestError Unit} {o : Except IngestError FileOutcome}

/-! ## Traces that add chunks -/

/-- A trace in which chunks are added in order, each with the vector that the embedder has answered
for it. -/
structure Filled (id : Int) (cs : List Chunk) (vs : List Embedding)
    (t : List (Exchange Work.interface)) : Prop where
  /-- it serves nothing else -/
  fills : ∀ x ∈ t, x.Fills id
  /-- there is a vector for each chunk -/
  length_eq : vs.length = cs.length
  /-- these are the chunks and vectors that have been added -/
  inserted_eq : t.flatMap (Exchange.inserted id) = cs.zip vs
  /-- and these are the ones that have been answered -/
  answered_eq : t.flatMap Exchange.answered = (cs.map (·.content)).zip vs

/-- The requests that make an end of adding chunks in batches of a size, after the first `k` of them
have been added, and the errors that they give. -/
inductive Stop (id : Int) (size : Nat) (cs : List Chunk) (k : Nat) :
    Exchange Work.interface → IngestError → Prop
  /-- the batch that begins with the next chunk gets no vectors -/
  | embedding (reason : EmbeddingError) (hk : k < cs.length) (hbatch : size ∣ k) :
    Stop id size cs k (.embedded (((cs.drop k).take size).map (·.content)) (.error reason))
      (.embedding (firstIndex (cs.drop k)) reason)
  /-- it gets another number of vectors -/
  | vectorCount {vs : List Embedding} (hk : k < cs.length) (hbatch : size ∣ k)
    (hne : vs.length ≠ ((cs.drop k).take size).length) :
    Stop id size cs k (.embedded (((cs.drop k).take size).map (·.content)) (.ok vs))
      (.vectorCount ((cs.drop k).take size).length vs.length)
  /-- the store refuses the next chunk -/
  | store {c : Chunk} (v : Embedding) (f : Failure) (hc : cs[k]? = some c) :
    Stop id size cs k (.stored (.insertChunk id c v) (.error f)) (.store f)

/-- A trace in which the first of some chunks are added in order, each with the vector that the
embedder has answered for it, up to a request that makes an end of it. -/
structure Halted (id : Int) (size : Nat) (cs : List Chunk) (e : IngestError) (vs : List Embedding)
    (t : List (Exchange Work.interface)) : Prop where
  /-- it serves nothing else -/
  fills : ∀ x ∈ t, x.Fills id
  /-- these are the chunks and vectors that have been added -/
  inserted_eq : t.flatMap (Exchange.inserted id) = cs.zip vs
  /-- and these are the first ones that have been answered -/
  answered_prefix : (cs.map (·.content)).zip vs <+: t.flatMap Exchange.answered
  /-- the request at its end gives the error -/
  stop : ∃ x ∈ t.getLast?, Stop id size cs vs.length x e

theorem Stop.lt {k : Nat} {x : Exchange Work.interface} (h : Stop id size cs k x e) :
    k < cs.length := by
  cases h with
  | embedding reason hk hbatch => exact hk
  | vectorCount hk hbatch hne => exact hk
  | store v f hc => exact (List.getElem?_eq_some_iff.mp hc).1

theorem Halted.length_lt (h : Halted id size cs e vs t) : vs.length < cs.length := by
  obtain ⟨x, -, hx⟩ := h.stop
  exact hx.lt

/-- Behind whole batches the same requests make an end of it. -/
theorem Stop.append {k : Nat} {x : Exchange Work.interface} (h : Stop id size ds k x e)
    (hcs : size ∣ cs.length) : Stop id size (cs ++ ds) (cs.length + k) x e := by
  have hdrop : (cs ++ ds).drop (cs.length + k) = ds.drop k := List.drop_length_add_append k
  cases h with
  | embedding reason hk hbatch =>
    rw [← hdrop]
    refine .embedding reason ?_ (Nat.dvd_add hcs hbatch)
    rw [List.length_append]
    exact Nat.add_lt_add_left hk _
  | vectorCount hk hbatch hne =>
    rw [← hdrop] at hne ⊢
    refine .vectorCount ?_ (Nat.dvd_add hcs hbatch) hne
    rw [List.length_append]
    exact Nat.add_lt_add_left hk _
  | store v f hc =>
    refine .store v f ?_
    rw [List.getElem?_append_right (Nat.le_add_right _ _), Nat.add_sub_cancel_left]
    exact hc

theorem filled_nil : Filled id [] [] [] where
  fills := fun _ hx => absurd hx List.not_mem_nil
  length_eq := rfl
  inserted_eq := rfl
  answered_eq := rfl

theorem Filled.append (h : Filled id cs vs t) (h' : Filled id ds ws u) :
    Filled id (cs ++ ds) (vs ++ ws) (t ++ u) where
  fills := List.forall_mem_append.mpr ⟨h.fills, h'.fills⟩
  length_eq := by rw [List.length_append, List.length_append, h.length_eq, h'.length_eq]
  inserted_eq := by
    rw [List.flatMap_append, h.inserted_eq, h'.inserted_eq, List.zip_append h.length_eq.symm]
  answered_eq := by
    rw [List.flatMap_append, h.answered_eq, h'.answered_eq, List.map_append, List.zip_append]
    rw [List.length_map, h.length_eq]

/-- What makes an end of it behind whole batches leaves them. -/
theorem Filled.halted (h : Filled id cs vs t) (hcs : size ∣ cs.length)
    (h' : Halted id size ds e ws u) : Halted id size (cs ++ ds) e (vs ++ ws) (t ++ u) where
  fills := List.forall_mem_append.mpr ⟨h.fills, h'.fills⟩
  inserted_eq := by
    rw [List.flatMap_append, h.inserted_eq, h'.inserted_eq, List.zip_append h.length_eq.symm]
  answered_prefix := by
    rw [List.flatMap_append, h.answered_eq, List.map_append, List.zip_append]
    · exact (List.prefix_append_right_inj _).mpr h'.answered_prefix
    · rw [List.length_map, h.length_eq]
  stop := by
    obtain ⟨x, hx, hstop⟩ := h'.stop
    refine ⟨x, ?_, ?_⟩
    · exact List.mem_getLast?_append_of_mem_getLast? hx
    · rw [List.length_append, h.length_eq]
      exact hstop.append hcs

/-- A row of insertions: all of them, or some up to one that is refused. -/
theorem of_traces_insertAll {cvs : List (Chunk × Embedding)}
    (h : Traces (insertAll id cvs).run t r) :
    (∀ x ∈ t, x.Fills id) ∧ t.flatMap Exchange.answered = [] ∧
      ((r = .ok () ∧ t.flatMap (Exchange.inserted id) = cvs) ∨
        ∃ k c v f, cvs[k]? = some (c, v) ∧ t.flatMap (Exchange.inserted id) = cvs.take k ∧
          .stored (.insertChunk id c v) (.error f) ∈ t.getLast? ∧ r = .error (.store f)) := by
  induction cvs generalizing t with
  | nil =>
    obtain ⟨rfl, rfl⟩ := traces_run_pure.mp h
    exact ⟨fun _ hx => absurd hx List.not_mem_nil, rfl, Or.inl ⟨rfl, rfl⟩⟩
  | cons cv cvs ih =>
    obtain ⟨c, v⟩ := cv
    rcases of_traces_stored_bind h with ⟨a, u, rfl, hrest⟩ | ⟨f, rfl, rfl⟩
    · obtain ⟨hfills, hanswered, hend⟩ := ih hrest
      have hhead : Exchange.inserted id (.stored (.insertChunk id c v) (.ok a)) = [(c, v)] :=
        if_pos rfl
      refine ⟨List.forall_mem_cons.mpr ⟨rfl, hfills⟩, hanswered, ?_⟩
      rw [List.flatMap_cons, hhead]
      rcases hend with ⟨rfl, hinserted⟩ | ⟨k, c', v', f, hk, hinserted, hlast, rfl⟩
      · exact Or.inl ⟨rfl, by rw [hinserted, List.singleton_append]⟩
      · refine Or.inr ⟨k + 1, c', v', f, hk, by rw [hinserted]; rfl, ?_, rfl⟩
        exact List.mem_getLast?_cons hlast
    · exact ⟨List.forall_mem_singleton.mpr rfl, rfl, Or.inr ⟨0, c, v, f, rfl, rfl, rfl, rfl⟩⟩

theorem zip_take {α β : Type} (as : List α) (bs : List β) (k : Nat) :
    as.zip (bs.take k) = (as.take k).zip (bs.take k) := by
  induction as generalizing bs k with
  | nil => rw [List.take_nil]
  | cons a as ih =>
    cases k with
    | zero => rfl
    | succ k =>
      cases bs with
      | nil => rfl
      | cons b bs => rw [List.take_succ_cons, List.take_succ_cons, List.zip_cons_cons, ih]; rfl

theorem firstIndex_take (hsize : 0 < size) : firstIndex (cs.take size) = firstIndex cs := by
  obtain ⟨n, rfl⟩ := Nat.exists_eq_succ_of_ne_zero (Nat.ne_of_gt hsize)
  cases cs with
  | nil => rfl
  | cons c cs => rfl

theorem halted_embedding (reason : EmbeddingError) (hcs : cs ≠ []) :
    Halted id size cs (.embedding (firstIndex cs) reason) []
      [.embedded ((cs.take size).map (·.content)) (.error reason)] where
  fills := List.forall_mem_singleton.mpr trivial
  inserted_eq := List.zip_nil_right.symm
  answered_prefix := by rw [List.zip_nil_right]; exact List.nil_prefix
  stop := ⟨_, rfl, .embedding reason (List.length_pos_iff.mpr hcs) (Nat.dvd_zero size)⟩

theorem halted_vectorCount (hcs : cs ≠ []) (hne : vs.length ≠ (cs.take size).length) :
    Halted id size cs (.vectorCount (cs.take size).length vs.length) []
      [.embedded ((cs.take size).map (·.content)) (.ok vs)] where
  fills := List.forall_mem_singleton.mpr trivial
  inserted_eq := List.zip_nil_right.symm
  answered_prefix := by rw [List.zip_nil_right]; exact List.nil_prefix
  stop := ⟨_, rfl, .vectorCount (List.length_pos_iff.mpr hcs) (Nat.dvd_zero size) hne⟩

/-- The first batch of chunks: all of it, or some of it up to a request that makes an end. -/
theorem of_traces_writeBatch (hsize : 0 < size) (hcs : cs ≠ [])
    (h : Traces (writeBatch id (cs.take size)).run t r) :
    (r = .ok () ∧ ∃ vs, Filled id (cs.take size) vs t) ∨
      ∃ e vs, r = .error e ∧ Halted id size cs e vs t := by
  rcases traces_run_bind.mp h with ⟨vs, u, v, rfl, hembed, hrest⟩ | ⟨e, hembed, rfl⟩
  · obtain ⟨a, ha, hok⟩ := traces_run_orFail.mp hembed
    obtain rfl := traces_ask.mp ha
    obtain rfl := mapError_eq_ok_iff.mp hok.symm
    split at hrest
    · rename_i hlength
      obtain ⟨hfills, hanswered, hend⟩ := of_traces_insertAll hrest
      have hserves : ∀ x ∈ .embedded ((cs.take size).map (·.content)) (.ok vs) :: v, x.Fills id :=
        List.forall_mem_cons.mpr ⟨trivial, hfills⟩
      have hall : (.embedded ((cs.take size).map (·.content)) (.ok vs) :: v).flatMap
          Exchange.answered = ((cs.take size).map (·.content)).zip vs := by
        rw [List.flatMap_cons, hanswered, List.append_nil]
        rfl
      rcases hend with ⟨rfl, hinserted⟩ | ⟨k, c, w, f, hk, hinserted, hlast, rfl⟩
      · exact Or.inl ⟨rfl, vs, hserves, hlength, hinserted, hall⟩
      · -- the batch has been answered as a whole, but only its first chunks are there
        obtain ⟨hc, hw⟩ := List.getElem?_zip_eq_some.mp hk
        obtain ⟨hkvs, -⟩ := List.getElem?_eq_some_iff.mp hw
        have hksize : k < size := by
          rw [hlength, List.length_take] at hkvs
          exact (Nat.lt_min.mp hkvs).1
        have hlen : (vs.take k).length = k := List.length_take_of_le (Nat.le_of_lt hkvs)
        have htake : ∀ {α : Type} (as : List α),
            ((as.take size).zip vs).take k = as.zip (vs.take k) := by
          intro α as
          rw [zip_take as, List.zip, List.take_zipWith, List.take_take,
            Nat.min_eq_left (Nat.le_of_lt hksize)]
        refine Or.inr ⟨_, vs.take k, rfl, hserves, ?_, ?_, _, List.mem_getLast?_cons hlast, ?_⟩
        · rw [← htake]
          exact hinserted
        · have hprefix : (cs.map (·.content)).zip (vs.take k) <+:
              ((cs.take size).map (·.content)).zip vs := by
            rw [← htake, ← List.map_take]
            exact List.take_prefix k _
          exact hall.symm ▸ hprefix
        · rw [hlen]
          rw [List.getElem?_take_of_lt hksize] at hc
          exact .store w f hc
    · rename_i hne
      obtain ⟨rfl, rfl⟩ := traces_run_throw.mp hrest
      exact Or.inr ⟨_, [], rfl, halted_vectorCount hcs hne⟩
  · obtain ⟨a, ha, herror⟩ := traces_run_orFail.mp hembed
    obtain rfl := traces_ask.mp ha
    cases a with
    | ok vs => cases herror
    | error reason =>
      obtain rfl := Except.error.inj herror
      rw [firstIndex_take hsize]
      exact Or.inr ⟨_, [], rfl, halted_embedding reason hcs⟩

theorem filled_delay {first : Bool} (h : Traces (g.delay first).run t r) :
    r = .ok () ∧ Filled id [] [] t := by
  rw [delay] at h
  split at h
  · obtain ⟨rfl, rfl⟩ := traces_run_pure.mp h
    exact ⟨rfl, filled_nil⟩
  · obtain ⟨⟨⟩, ha, rfl⟩ := traces_run_lift.mp h
    obtain rfl := traces_ask.mp ha
    exact ⟨rfl, List.forall_mem_singleton.mpr trivial, rfl, rfl, rfl⟩

/-- All batches: every chunk, or the first ones up to a request that makes an end. -/
theorem of_traces_writeBatches {first : Bool}
    (h : Traces (g.writeBatches id first (batches size cs)).run t r) :
    (r = .ok () ∧ ∃ vs, Filled id cs vs t) ∨
      ∃ e vs, r = .error e ∧ Halted id (max size 1) cs e vs t := by
  induction cs using batches.induct size generalizing first t with
  | case1 =>
    rw [batches] at h
    obtain ⟨rfl, rfl⟩ := traces_run_pure.mp h
    exact Or.inl ⟨rfl, [], filled_nil⟩
  | case2 c cs ih =>
    -- a size of zero counts as one
    obtain ⟨n, hn⟩ : ∃ n, max size 1 = n + 1 := ⟨max size 1 - 1, by omega⟩
    obtain rfl : size - 1 = n := by omega
    rw [batches] at h
    rw [hn] at ih ⊢
    rcases traces_run_bind.mp h with ⟨a, u, v, rfl, hdelay, hwrite⟩ | ⟨e, hdelay, -⟩
    · have hpause : Filled id [] [] u := (filled_delay hdelay).2
      rw [← List.take_succ_cons] at hwrite
      rcases traces_run_bind.mp hwrite with ⟨a, u₁, u₂, rfl, hbatch, hrest⟩ | ⟨e, hbatch, rfl⟩
      · rcases of_traces_writeBatch (Nat.succ_pos _) (List.cons_ne_nil c cs) hbatch with
          ⟨-, vs, hbatch⟩ | ⟨e, vs, he, -⟩
        · rcases ih hrest with ⟨rfl, ws, hfilled⟩ | ⟨e, ws, rfl, hhalted⟩
          · rw [← List.take_append_drop (size - 1 + 1) (c :: cs)]
            exact Or.inl ⟨rfl, [] ++ (vs ++ ws), hpause.append (hbatch.append hfilled)⟩
          · -- batches follow, so this one has its full size
            have hwhole : size - 1 + 1 ∣ ((c :: cs).take (size - 1 + 1)).length := by
              have hlt := hhalted.length_lt
              rw [List.length_drop] at hlt
              have hfull : ((c :: cs).take (size - 1 + 1)).length = size - 1 + 1 :=
                List.length_take_of_le (by rw [List.length_cons]; omega)
              exact hfull.symm ▸ Nat.dvd_refl _
            rw [← List.take_append_drop (size - 1 + 1) (c :: cs)]
            exact Or.inr ⟨e, [] ++ (vs ++ ws), rfl,
              hpause.halted (Nat.dvd_zero _) (hbatch.halted hwhole hhalted)⟩
        · cases he
      · rcases of_traces_writeBatch (Nat.succ_pos _) (List.cons_ne_nil c cs) hbatch with
          ⟨he, -⟩ | ⟨e, vs, he, hbatch⟩
        · cases he
        · obtain rfl := Except.error.inj he
          exact Or.inr ⟨e, vs, rfl, hpause.halted (Nat.dvd_zero _) hbatch⟩
    · obtain ⟨hr, -⟩ : _ ∧ Filled id [] [] _ := filled_delay hdelay
      cases hr

/-- The old chunks are taken away and the new ones added, unless one or the other fails. -/
theorem filled_or_halted_of_traces (h : Traces (g.writeChunks id cs).run t r) :
    (∃ f, t = [.stored (.deleteChunks id) (.error f)] ∧ r = .error (.store f)) ∨
      ∃ n u, t = .stored (.deleteChunks id) (.ok n) :: u ∧
        ((r = .ok () ∧ ∃ vs, Filled id cs vs u) ∨
          ∃ e vs, r = .error e ∧ Halted id (max g.batchSize 1) cs e vs u) := by
  rcases of_traces_stored_bind h with ⟨n, u, rfl, hrest⟩ | ⟨f, rfl, rfl⟩
  · exact Or.inr ⟨n, u, rfl, of_traces_writeBatches hrest⟩
  · exact Or.inl ⟨f, rfl, rfl⟩

/-- A file that ends for want of vectors has been answered another number of them than it asked
for. -/
theorem exists_embedded_of_traces {m n : Nat}
    (h : Traces (g.processFile path).run t (.error (.vectorCount m n))) :
    ∃ texts vs, .embedded texts (.ok vs) ∈ t ∧ vs.length ≠ texts.length := by
  generalize ho : Except.error (IngestError.vectorCount m n) = o at h
  cases start_of_traces h with
  | written _ _ _ _ hwrite =>
    subst ho
    rcases of_traces_write hwrite with ⟨f, -, he⟩ | ⟨id, v, rfl, ⟨-, he⟩ |
      ⟨u, e, c, rfl, hchunks, he⟩⟩
    · cases he
    · cases he
    · obtain rfl := Except.error.inj he
      rcases filled_or_halted_of_traces hchunks with ⟨f, -, he⟩ | ⟨k, u, rfl, ⟨he, -⟩ |
        ⟨e, vs, he, hhalted⟩⟩
      · cases he
      · cases he
      · obtain rfl := Except.error.inj he
        obtain ⟨x, hx, hstop⟩ := hhalted.stop
        have hmem := List.mem_of_mem_getLast? hx
        cases hstop with
        | vectorCount _ _ hne =>
          refine ⟨_, _, List.mem_append_right _ (List.mem_cons_of_mem _ (List.mem_append_left _
            (List.mem_cons_of_mem _ hmem))), fun hlength => ?_⟩
          exact hne (hlength.trans (List.length_map _))
  | _ => cases ho

/-- Nothing that adds chunks clears a hash. -/
theorem filter_clears_of_fills (h : ∀ x ∈ t, x.Fills id) : t.filter Exchange.clears = [] := by
  refine List.filter_eq_nil_iff.mpr fun x hx => ?_
  rcases of_fills (h x hx) with ⟨n, r, rfl⟩ | ⟨texts, r, rfl⟩ | ⟨c, v, r, rfl⟩ <;>
    exact Bool.false_ne_true

end Ingestor

/-! ## Stores in which one path is written anew -/

namespace Memory

variable {s s₁ s' : Memory} {d : NewDocument} {now : Instant} {id : Int} {path hash : String}
variable {R : Store.Call → Prop}

/-- Something else is held of one path, under the key that it had or was to get; what is held of
other paths stays. -/
structure Rewritten (path : String) (h : Holding) (s s' : Memory) : Prop where
  /-- the document keeps its key -/
  document : ∃ e, s'.document? path = some e ∧ e.id = s.key path
  /-- this is held of the path -/
  holding_eq : s'.holding path = h
  /-- what is held of other paths is the same -/
  others : ∀ q, q ≠ path → s'.holding q = s.holding q

/-- The hash that is left of a document after the answer to the request to clear it. -/
def hashAfter {α : Type} (hash : String) : Except Failure α → Option String
  | .ok _ => none
  | .error _ => some hash

section

variable (hs : s.WellFormed) (hid : id = (s.upsert d now).1)
include hs hid

theorem rewritten_of_touches (h : Touches id (s.upsert d now).2 s') :
    Rewritten d.path ⟨some d.title, d.metadata.fileHash, s'.passages id⟩ s s' := by
  subst hid
  exact ⟨⟨_, document?_of_touches hs h, fst_upsert hs⟩, holding_of_touches hs h,
    fun _ hq => holding_of_touches_of_ne hs h hq⟩

theorem rewritten_clearHash (hs' : s'.WellFormed) (h : Touches id (s.upsert d now).2 s') :
    Rewritten d.path ⟨some d.title, none, s'.passages id⟩ s (s'.clearHash id) := by
  subst hid
  exact ⟨⟨_, document?_clearHash_of_id hs' (document?_of_touches hs h) rfl, fst_upsert hs⟩,
    holding_of_touches_clearHash hs h hs',
    fun _ hq => holding_of_touches_clearHash_of_ne hs h hs' hq⟩

/-- A document that has been written and whose hash was then to be cleared. -/
theorem rewritten_of_gives_clear (hs₁ : s₁.WellFormed) (hhash : d.metadata.fileHash = some hash)
    (h : Touches id (s.upsert d now).2 s₁) {c : Store.Reply (.clearDocumentHash id)}
    (hg : Gives (Serves R) s₁ [.stored (.clearDocumentHash id) c] s') :
    Rewritten d.path ⟨some d.title, hashAfter hash c, s₁.passages id⟩ s s' := by
  cases c with
  | ok a =>
    obtain ⟨now', -, hrest⟩ := of_gives_ok hg
    rw [gives_nil.mp hrest]
    exact rewritten_clearHash hs hid hs₁ h
  | error f =>
    rw [gives_nil.mp (of_gives_error hg).2, hashAfter, ← hhash]
    exact rewritten_of_touches hs hid h

end

end Memory

namespace Ingestor

variable {g : Ingestor} {path : Path} {s s' : Memory} {R : Store.Call → Prop}
variable {t : List (Exchange Work.interface)} {o : Except IngestError FileOutcome}

/-! ## Exits -/

/-- The exits of a file that is ingested with a store: the requests to clear a hash, how it ends,
and the store after it. -/
inductive Exit (g : Ingestor) (path : Path) (s : Memory) (t : List (Exchange Work.interface)) :
    List (Exchange Work.interface) → Except IngestError FileOutcome → Memory → Prop
  /-- it cannot be read -/
  | unread (reason : Files.FileError) (hread : .read path (.error reason) ∈ t)
    (hnone : ∀ x ∈ t, ¬ x.Writes) : Exit g path s t [] (.error (.read path reason)) s
  /-- the store does not say what is known of it -/
  | unknown (f : Failure) (hknown : .stored (.documentHash (Path.text path)) (.error f) ∈ t)
    (hnone : ∀ x ∈ t, ¬ x.Writes) : Exit g path s t [] (.error (.store f)) s
  /-- it is unchanged -/
  | unchanged {bytes : List UInt8} (hread : .read path (.ok bytes) ∈ t)
    (hhash : s.hash? (Path.text path) = some (Sha256.hexDigest bytes))
    (hnone : ∀ x ∈ t, ¬ x.Writes) :
    Exit g path s t [] (.ok .skipped) s
  /-- it is no text -/
  | notText {bytes : List UInt8} (hread : .read path (.ok bytes) ∈ t)
    (htext : decode? bytes = none) (hnone : ∀ x ∈ t, ¬ x.Writes) :
    Exit g path s t [] (.error (.notUtf8 path)) s
  /-- it is all white space -/
  | empty {bytes : List UInt8} {text : List Char} (hread : .read path (.ok bytes) ∈ t)
    (htext : decode? bytes = some text) (hblank : isBlankText text = true)
    (hnone : ∀ x ∈ t, ¬ x.Writes) : Exit g path s t [] (.error (.emptyDocument path)) s
  /-- its document is not written -/
  | unwritten (d : NewDocument) (f : Failure)
    (hupsert : .stored (.upsertDocument d) (.error f) ∈ t) (hnone : ∀ x ∈ t, ¬ x.Writes) :
    Exit g path s t [] (.error (.store f)) s
  /-- its document and all its chunks are written -/
  | processed {bytes : List UInt8} {text : List Char} {d : NewDocument} {cs : List Chunk}
    {vs : List Embedding} {s' : Memory} (hread : .read path (.ok bytes) ∈ t)
    (hd : Describes path bytes text d)
    (hupsert : .stored (.upsertDocument d) (.ok (s.key (Path.text path))) ∈ t)
    (hcs : cs = chunks g.limits (String.ofList text)) (hlength : vs.length = cs.length)
    (hvs : t.flatMap Exchange.answered = (cs.map (·.content)).zip vs)
    (hleft : Rewritten (Path.text path) ⟨some d.title, some (Sha256.hexDigest bytes),
      List.zipWith Chunk.passage cs vs⟩ s s') :
    Exit g path s t [] (.ok (.processed cs.length)) s'
  /-- its document is written, but the old chunks are not taken away -/
  | undeleted {bytes : List UInt8} {text : List Char} {d : NewDocument} (f : Failure)
    {c : Store.Reply (.clearDocumentHash (s.key (Path.text path)))} {s' : Memory}
    (hread : .read path (.ok bytes) ∈ t) (hd : Describes path bytes text d)
    (hupsert : .stored (.upsertDocument d) (.ok (s.key (Path.text path))) ∈ t)
    (hdelete : .stored (.deleteChunks (s.key (Path.text path))) (.error f) ∈ t)
    (hleft : Rewritten (Path.text path) ⟨some d.title, hashAfter (Sha256.hexDigest bytes) c,
      s.passages (s.key (Path.text path))⟩ s s') :
    Exit g path s t [.stored (.clearDocumentHash (s.key (Path.text path))) c] (.error (.store f)) s'
  /-- its document is written, but only the first of its chunks are -/
  | stopped {bytes : List UInt8} {text : List Char} {d : NewDocument} {cs : List Chunk}
    {vs : List Embedding} {e : IngestError} {x : Exchange Work.interface}
    {c : Store.Reply (.clearDocumentHash (s.key (Path.text path)))} {s' : Memory}
    (hread : .read path (.ok bytes) ∈ t) (hd : Describes path bytes text d)
    (hupsert : .stored (.upsertDocument d) (.ok (s.key (Path.text path))) ∈ t)
    (hcs : cs = chunks g.limits (String.ofList text)) (hlength : vs.length < cs.length)
    (hvs : (cs.map (·.content)).zip vs <+: t.flatMap Exchange.answered)
    (hinserted : t.flatMap (Exchange.inserted (s.key (Path.text path))) = cs.zip vs)
    (hstop : x ∈ t ∧ Stop (s.key (Path.text path)) (max g.batchSize 1) cs vs.length x e)
    (hindex : ∀ i reason, e = .embedding i reason → i = vs.length)
    (hleft : Rewritten (Path.text path) ⟨some d.title, hashAfter (Sha256.hexDigest bytes) c,
      List.zipWith Chunk.passage cs vs⟩ s s') :
    Exit g path s t [.stored (.clearDocumentHash (s.key (Path.text path))) c] (.error e) s'

/-- The position of the first of the chunks of a text that are left. -/
theorem firstIndex_drop_chunks {limits : ChunkLimits} {text : String} {k : Nat}
    (hk : k < (chunks limits text).length) : firstIndex ((chunks limits text).drop k) = k := by
  rw [List.drop_eq_getElem_cons hk, firstIndex]
  exact index_of_getElem?_chunks (List.getElem?_eq_getElem hk)

theorem Stop.index_eq {id : Int} {size k : Nat} {limits : ChunkLimits} {text : String}
    {x : Exchange Work.interface} {e : IngestError}
    (h : Stop id size (chunks limits text) k x e) :
    ∀ i reason, e = .embedding i reason → i = k := by
  rintro i reason rfl
  cases h with
  | embedding reason hk hbatch => exact firstIndex_drop_chunks hk

section Written

variable {bytes : List UInt8} {known : Option String} {text : List Char} {m : Option Instant}
variable {now : Instant} {d : NewDocument} {id : Int} {n : Nat} {cs : List Chunk}
variable {vs : List Embedding} {u v : List (Exchange Work.interface)} {e : IngestError}
variable {c : Store.Reply (.clearDocumentHash id)}

/-- What is in the store when a document has been written and some chunks have been added to it. -/
theorem of_gives_filling (hs : s.WellFormed)
    (hg : Gives (Serves R) s (opening path bytes known m now ++
      .stored (.upsertDocument d) (.ok id) :: .stored (.deleteChunks id) (.ok n) :: (u ++ v)) s')
    (hu : ∀ x ∈ u, x.Fills id) (hinserted : u.flatMap (Exchange.inserted id) = cs.zip vs) :
    ∃ now s₁, id = (s.upsert d now).1 ∧ Touches id (s.upsert d now).2 s₁ ∧ s₁.WellFormed ∧
      s₁.passages id = List.zipWith Chunk.passage cs vs ∧ Gives (Serves R) s₁ v s' := by
  obtain ⟨now, hid, hdelete⟩ := of_gives_ok (of_gives_opening hg).2
  obtain ⟨now', -, hrest⟩ := of_gives_ok hdelete
  obtain ⟨s₁, hfilling, hclear⟩ := gives_append.mp hrest
  have hgains := gains_of_gives hfilling hu
  have hs₁ : s₁.WellFormed := (hs.upsert.deleteChunks id).of_gives hfilling
  refine ⟨now, s₁, hid, touches_deleteChunks.trans hgains.touches, hs₁, ?_, hclear⟩
  rw [hgains.passages_eq, hinserted, List.map_uncurry_zip_eq_zipWith]
  exact congrArg (· ++ _) passages_deleteChunks

/-- Only what comes after the chunks can clear a hash. -/
theorem filter_clears_filling {b : Store.Reply (.deleteChunks id)} (hu : ∀ x ∈ u, x.Fills id) :
    (opening path bytes known m now ++ .stored (.upsertDocument d) (.ok id) ::
      .stored (.deleteChunks id) b :: (u ++ v)).filter Exchange.clears =
      v.filter Exchange.clears := by
  refine (List.filter_append u v).trans ?_
  rw [filter_clears_of_fills hu, List.nil_append]

theorem mem_upsert {b : Store.Reply (.upsertDocument d)} :
    .stored (.upsertDocument d) b ∈ opening path bytes known m now ++
      .stored (.upsertDocument d) b :: v :=
  List.mem_append_right _ List.mem_cons_self

/-- Before the chunks nothing is added and nothing is answered. -/
theorem flatMap_filling {α : Type} {f : Exchange Work.interface → List α}
    {b : Store.Reply (.deleteChunks id)}
    (hopening : (opening path bytes known m now).flatMap f = [])
    (hupsert : f (.stored (.upsertDocument d) (.ok id)) = [])
    (hdelete : f (.stored (.deleteChunks id) b) = []) :
    (opening path bytes known m now ++ .stored (.upsertDocument d) (.ok id) ::
      .stored (.deleteChunks id) b :: (u ++ v)).flatMap f = u.flatMap f ++ v.flatMap f := by
  rw [List.flatMap_append, hopening, List.flatMap_cons, hupsert, List.flatMap_cons, hdelete,
    List.flatMap_append]
  rfl

theorem exit_of_filled (hs : s.WellFormed) (hd : Describes path bytes text d)
    (hu : Filled id (chunks g.limits (String.ofList text)) vs u)
    (ht : t = opening path bytes known m now ++ .stored (.upsertDocument d) (.ok id) ::
      .stored (.deleteChunks id) (.ok n) :: u) (hg : Gives (Serves R) s t s') :
    Exit g path s t (t.filter Exchange.clears)
      (.ok (.processed (chunks g.limits (String.ofList text)).length)) s' := by
  rw [← List.append_nil u] at ht
  subst ht
  obtain ⟨now', s₁, hid, htouches, -, hpassages, hnil⟩ :=
    of_gives_filling hs hg hu.fills hu.inserted_eq
  obtain rfl := gives_nil.mp hnil
  have hleft := rewritten_of_touches hs hid htouches
  rw [hpassages, hd.path_eq, hd.hash_eq] at hleft
  obtain rfl : id = s.key (Path.text path) := hd.path_eq ▸ hid.trans (fst_upsert hs)
  rw [filter_clears_filling hu.fills]
  refine .processed List.mem_cons_self hd mem_upsert rfl hu.length_eq ?_ hleft
  rw [flatMap_filling rfl rfl rfl, hu.answered_eq]
  exact List.append_nil _

theorem exit_of_undeleted (hs : s.WellFormed) (hd : Describes path bytes text d) {f : Failure}
    (ht : t = opening path bytes known m now ++ .stored (.upsertDocument d) (.ok id) ::
      .stored (.deleteChunks id) (.error f) :: ([] ++ [.stored (.clearDocumentHash id) c]))
    (hg : Gives (Serves R) s t s') :
    Exit g path s t (t.filter Exchange.clears) (.error (.store f)) s' := by
  subst ht
  obtain ⟨now', hid, hdelete⟩ := of_gives_ok (of_gives_opening hg).2
  obtain ⟨-, hclear⟩ := of_gives_error hdelete
  have hleft := rewritten_of_gives_clear hs hid hs.upsert hd.hash_eq (Touches.refl _) hclear
  have hkept : (s.upsert d now').2.passages id = s.passages id := congrArg _ (chunksOf_upsert id)
  rw [hkept, hd.path_eq] at hleft
  obtain rfl : id = s.key (Path.text path) := hd.path_eq ▸ hid.trans (fst_upsert hs)
  refine .undeleted f List.mem_cons_self hd mem_upsert ?_ hleft
  exact List.mem_append_right _ (List.mem_cons_of_mem _ List.mem_cons_self)

theorem exit_of_halted (hs : s.WellFormed) (hd : Describes path bytes text d)
    (hu : Halted id (max g.batchSize 1) (chunks g.limits (String.ofList text)) e vs u)
    (ht : t = opening path bytes known m now ++ .stored (.upsertDocument d) (.ok id) ::
      .stored (.deleteChunks id) (.ok n) :: (u ++ [.stored (.clearDocumentHash id) c]))
    (hg : Gives (Serves R) s t s') :
    Exit g path s t (t.filter Exchange.clears) (.error e) s' := by
  subst ht
  obtain ⟨now', s₁, hid, htouches, hs₁, hpassages, hclear⟩ :=
    of_gives_filling hs hg hu.fills hu.inserted_eq
  have hleft := rewritten_of_gives_clear hs hid hs₁ hd.hash_eq htouches hclear
  rw [hpassages, hd.path_eq] at hleft
  obtain rfl : id = s.key (Path.text path) := hd.path_eq ▸ hid.trans (fst_upsert hs)
  obtain ⟨x, hx, hstop⟩ := hu.stop
  rw [filter_clears_filling hu.fills]
  refine .stopped List.mem_cons_self hd mem_upsert rfl hu.length_lt ?_ ?_ ⟨?_, hstop⟩
    hstop.index_eq hleft
  · rw [flatMap_filling rfl rfl rfl]
    exact hu.answered_prefix.trans (List.prefix_append _ _)
  · rw [flatMap_filling rfl rfl rfl, hu.inserted_eq]
    exact List.append_nil _
  · have hmem : x ∈ u := List.mem_of_mem_getLast? hx
    simp [hmem]

end Written

/-- The exits of a file whose document is to be written. -/
theorem exit_of_traces_write (hs : s.WellFormed) {bytes : List UInt8} {known : Option String}
    {text : List Char} {m : Option Instant} {now : Instant} (htext : decode? bytes = some text)
    (h : Traces (g.write (documentOf path (String.ofList text) (Sha256.hexDigest bytes)
      bytes.length m now) (chunks g.limits (String.ofList text))).run t o)
    (hg : Gives (Serves R) s (opening path bytes known m now ++ t) s') :
    Exit g path s (opening path bytes known m now ++ t)
      ((opening path bytes known m now ++ t).filter Exchange.clears) o s' := by
  have hd : Describes path bytes text (documentOf path (String.ofList text)
    (Sha256.hexDigest bytes) bytes.length m now) := ⟨htext, rfl, rfl, rfl⟩
  rcases of_traces_write h with ⟨f, rfl, rfl⟩ | ⟨id, v, rfl, ⟨hchunks, rfl⟩ |
    ⟨u, e, c, rfl, hchunks, rfl⟩⟩
  · rw [gives_nil.mp (of_gives_error (of_gives_opening hg).2).2]
    exact .unwritten _ f mem_upsert (List.forall_mem_append.mpr
      ⟨fun x hx => (not_writes_opening x hx).1, List.forall_mem_singleton.mpr not_false⟩)
  · rcases filled_or_halted_of_traces hchunks with ⟨f, -, he⟩ |
      ⟨n, u, rfl, ⟨-, vs, hfilled⟩ | ⟨e, vs, he, -⟩⟩
    · cases he
    · exact exit_of_filled hs hd hfilled rfl hg
    · cases he
  · rcases filled_or_halted_of_traces hchunks with ⟨f, rfl, he⟩ |
      ⟨n, u, rfl, ⟨he, -⟩ | ⟨e, vs, he, hhalted⟩⟩
    · obtain rfl := Except.error.inj he
      exact exit_of_undeleted hs hd rfl hg
    · cases he
    · obtain rfl := Except.error.inj he
      exact exit_of_halted hs hd hhalted rfl hg

/-- What is asked before a document is to be written writes none. -/
theorem not_writes_asked {bytes : List UInt8} {b : Store.Reply (.documentHash (Path.text path))} :
    ∀ x ∈ [Exchange.read path (.ok bytes), .stored (.documentHash (Path.text path)) b], ¬ x.Writes :=
  List.forall_mem_cons.mpr ⟨not_false, List.forall_mem_singleton.mpr not_false⟩

/-- **Every exit of a file leaves what it should.** -/
theorem exit_of_traces (hs : s.WellFormed) (h : Traces (g.processFile path).run t o)
    (hg : Gives (Serves R) s t s') : Exit g path s t (t.filter Exchange.clears) o s' := by
  rcases start_of_traces h with reason | ⟨bytes, f⟩ | bytes | ⟨hnew, htext⟩ |
    ⟨hnew, htext, hchunks⟩ | ⟨m, now, hnew, htext, hwrite⟩
  · rw [gives_nil.mp (of_gives_host hg)]
    exact .unread reason List.mem_cons_self (List.forall_mem_singleton.mpr not_false)
  · rw [gives_nil.mp (of_gives_error (of_gives_host hg)).2]
    exact .unknown f (List.mem_cons_of_mem _ List.mem_cons_self) not_writes_asked
  · obtain ⟨_, hhash, hrest⟩ := of_gives_ok (of_gives_host hg)
    rw [gives_nil.mp hrest]
    exact .unchanged List.mem_cons_self hhash.symm not_writes_asked
  · obtain ⟨_, -, hrest⟩ := of_gives_ok (of_gives_host hg)
    rw [gives_nil.mp hrest]
    exact .notText List.mem_cons_self htext not_writes_asked
  · obtain ⟨_, -, hrest⟩ := of_gives_ok (of_gives_host hg)
    rw [gives_nil.mp hrest]
    rw [chunks_eq_nil_iff, String.toList_ofList] at hchunks
    exact .empty List.mem_cons_self htext hchunks not_writes_asked
  · exact exit_of_traces_write hs htext hwrite hg

/-- The sample file gets as far as its document when the store refuses to take old chunks away. -/
theorem exit_of_traces_refused :
    Exit sampleIngestor sampleName {} (refusedTrace ⟨"no space", []⟩)
      [.stored (.clearDocumentHash 1) (.error ⟨"no space", []⟩)] (.error (.store ⟨"no space", []⟩))
      refusedMemory :=
  exit_of_traces wellFormed_empty (traces_refusedTrace _) (gives_refusedTrace _)

end Ingestor

end MarkdownIndex
