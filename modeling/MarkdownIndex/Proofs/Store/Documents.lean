import MarkdownIndex.Proofs.Program.Trace
import MarkdownIndex.Proofs.Store.Memory

/-!
# The store under requests: documents by their paths, rows by their documents

What a row of requests leaves in a store, whoever sent them and whatever else was asked in between.

* `document?_eq_some_iff` — the document with a path.
* `key` — the key that a path has, or would get; it stays, however often the document is written.
* `document?_upsert_self`, `document?_upsert_of_ne`, `document?_clearHash_of_id` and so on —
  documents and hashes by their paths after a request that writes one.
* `Serves` — surroundings of which only the store matters.
* `documents_of_gives`, `rows_of_gives` — what is left of a trace: documents change where one is
  written, and the rows of a document grow by what is added as long as none are taken away.
-/

namespace MarkdownIndex

namespace Memory

variable {s s' : Memory} {d : NewDocument} {e : StoredDocument} {now : Instant} {id : Int}
variable {path q : String}

/-! ## Documents by their paths -/

theorem document?_eq_some_iff (hs : s.WellFormed) :
    s.document? path = some e ↔ e ∈ s.documents ∧ e.path = path := by
  constructor
  · exact mem_of_document?
  · rintro ⟨he, rfl⟩
    cases hd : s.document? e.path with
    | none => exact absurd rfl (path_ne_of_document? hd he)
    | some f =>
      obtain ⟨hf, hpath⟩ := mem_of_document? hd
      rw [hs.eq_of_path hf he hpath]

/-- After a document has been written it is the one with its path. -/
theorem document?_upsert_self (hs : s.WellFormed) :
    (s.upsert d now).2.document? d.path = some (s.writtenDocument d now) := by
  rw [document?_eq_some_iff hs.upsert, mem_documents_upsert hs]
  exact ⟨Or.inl rfl, rfl⟩

/-- Other paths keep their documents. -/
theorem document?_upsert_of_ne (hs : s.WellFormed) (hne : q ≠ d.path) :
    (s.upsert d now).2.document? q = s.document? q := by
  refine Option.ext fun e => ?_
  rw [document?_eq_some_iff hs.upsert, document?_eq_some_iff hs, mem_documents_upsert hs]
  constructor
  · rintro ⟨rfl | ⟨he, -⟩, hpath⟩
    · exact absurd hpath.symm hne
    · exact ⟨he, hpath⟩
  · rintro ⟨he, rfl⟩
    exact ⟨Or.inr ⟨he, hne⟩, rfl⟩

theorem hash?_upsert_self (hs : s.WellFormed) :
    (s.upsert d now).2.hash? d.path = d.metadata.fileHash := by
  rw [hash?, document?_upsert_self hs]
  rfl

/-- The document whose hash is cleared is what it was, without its hash. -/
theorem document?_clearHash_of_id (hs : s.WellFormed) (he : s.document? path = some e)
    (hid : e.id = id) : (s.clearHash id).document? path =
      some { e with metadata := { e.metadata with fileHash := none } } := by
  obtain ⟨hmem, hpath⟩ := mem_of_document? he
  rw [document?_eq_some_iff (hs.clearHash id), mem_documents_clearHash]
  exact ⟨Or.inr ⟨e, hmem, hid, rfl⟩, hpath⟩

/-- The others stay. -/
theorem document?_clearHash_of_ne (hs : s.WellFormed)
    (hne : ∀ e, s.document? path = some e → e.id ≠ id) :
    (s.clearHash id).document? path = s.document? path := by
  refine Option.ext fun e => ?_
  rw [document?_eq_some_iff (hs.clearHash id), mem_documents_clearHash]
  constructor
  · rintro ⟨⟨he, hid⟩ | ⟨f, hf, hid, rfl⟩, hpath⟩
    · exact (document?_eq_some_iff hs).mpr ⟨he, hpath⟩
    · exact absurd hid (hne f ((document?_eq_some_iff hs).mpr ⟨hf, hpath⟩))
  · intro h
    obtain ⟨he, hpath⟩ := mem_of_document? h
    exact ⟨Or.inl ⟨he, hne e h⟩, hpath⟩

theorem hash?_clearHash_of_id (hs : s.WellFormed) (he : s.document? path = some e)
    (hid : e.id = id) : (s.clearHash id).hash? path = none := by
  rw [hash?, document?_clearHash_of_id hs he hid]
  rfl

theorem hash?_clearHash_of_ne (hs : s.WellFormed)
    (hne : ∀ e, s.document? path = some e → e.id ≠ id) :
    (s.clearHash id).hash? path = s.hash? path := by
  rw [hash?, document?_clearHash_of_ne hs hne, hash?]

/-! ## Keys by their paths -/

/-- The key of the document with a path, or the one that it would get. -/
def key (s : Memory) (path : String) : Int :=
  ((s.document? path).map (·.id)).getD (s.documents.length + 1)

theorem fst_upsert (hs : s.WellFormed) : (s.upsert d now).1 = s.key d.path := by
  rcases hd : s.document? d.path with _ | old
  · simp only [upsert, key, hd, hs.counted, Option.map_none, Option.getD_none]
  · simp only [upsert, key, hd, Option.map_some, Option.getD_some]

theorem key_of_document? (h : s.document? path = some e) : s.key path = e.id := by
  rw [key, h]
  rfl

/-- The key under which a document is written stays. -/
theorem key_upsert (hs : s.WellFormed) : (s.upsert d now).2.key d.path = s.key d.path := by
  rw [key_of_document? (document?_upsert_self hs), ← fst_upsert hs]
  rfl

theorem key_congr (h : s'.documents = s.documents) : s'.key path = s.key path := by
  rw [key, document?, h, key, document?]

theorem document?_congr (h : s'.documents = s.documents) :
    s'.document? path = s.document? path := by
  rw [document?, h, document?]

/-! ## The store as surroundings -/

/-- The answers of surroundings of which only the store matters: the rest may answer anything, and
some requests may be refused. -/
inductive Serves (refuses : Store.Call → Prop) : Surroundings Work.interface Memory
  /-- the machine answers something -/
  | host (s : Memory) (c : Host.Call) (r : Host.Reply c) : Serves refuses s (.host c) r s
  /-- the embedder answers something -/
  | embedded (s : Memory) (texts : List String) (r : Except EmbeddingError (List Embedding)) :
    Serves refuses s (.embed texts) r s
  /-- the store does what it is asked for -/
  | store (s : Memory) (now : Instant) (c : Store.Call) :
    Serves refuses s (.store c) (Except.ok (s.perform now c).1) (s.perform now c).2
  /-- the store refuses -/
  | refused (s : Memory) (c : Store.Call) (f : Failure) (h : refuses c) :
    Serves refuses s (.store c) (Except.error f) s

variable {R : Store.Call → Prop} {t : List (Exchange Work.interface)}

theorem serves_store {c : Store.Call} {r : Store.Reply c} :
    Serves R s (.store c) r s' ↔
      (∃ now, r = .ok (s.perform now c).1 ∧ s' = (s.perform now c).2) ∨
        ∃ f, R c ∧ r = .error f ∧ s' = s := by
  constructor
  · intro h
    cases h with
    | store _ now _ => exact Or.inl ⟨now, rfl, rfl⟩
    | refused _ _ f h => exact Or.inr ⟨f, h, rfl, rfl⟩
  · rintro (⟨now, rfl, rfl⟩ | ⟨f, h, rfl, rfl⟩)
    · exact Serves.store s now c
    · exact Serves.refused s' c f h

/-- A request that is answered has been performed. -/
theorem of_gives_ok {c : Store.Call} {a : Store.Answer c}
    (h : Gives (Serves R) s (⟨.store c, Except.ok a⟩ :: t) s') :
    ∃ now, a = (s.perform now c).1 ∧ Gives (Serves R) (s.perform now c).2 t s' := by
  obtain ⟨s₁, hstore, hrest⟩ := gives_cons.mp h
  rcases serves_store.mp hstore with ⟨now, ha, rfl⟩ | ⟨f, -, ha, -⟩
  · exact ⟨now, Except.ok.inj ha, hrest⟩
  · cases ha

/-- A request that is refused has been refused for a reason, and nothing has happened. -/
theorem of_gives_error {c : Store.Call} {f : Failure}
    (h : Gives (Serves R) s (⟨.store c, Except.error f⟩ :: t) s') :
    R c ∧ Gives (Serves R) s t s' := by
  obtain ⟨s₁, hstore, hrest⟩ := gives_cons.mp h
  rcases serves_store.mp hstore with ⟨now, hf, -⟩ | ⟨f, hR, -, rfl⟩
  · cases hf
  · exact ⟨hR, hrest⟩

/-- A request to the machine leaves the store alone. -/
theorem of_gives_host {c : Host.Call} {r : Host.Reply c}
    (h : Gives (Serves R) s (⟨.host c, r⟩ :: t) s') : Gives (Serves R) s t s' := by
  obtain ⟨s₁, hhost, hrest⟩ := gives_cons.mp h
  cases hhost
  exact hrest

/-- **No trace makes a store ill-formed.** -/
theorem WellFormed.of_gives (hs : s.WellFormed) (h : Gives (Serves R) s t s') :
    s'.WellFormed := by
  refine h.keeps (P := WellFormed) (fun x _ {s s'} hs hx => ?_) hs
  obtain ⟨c, r⟩ := x
  cases hx with
  | host => exact hs
  | embedded => exact hs
  | store _ now c => exact hs.perform now c
  | refused => exact hs

end Memory

/-! ## What is left of a trace -/

/-- The request changes documents. -/
def Exchange.WritesDocument (x : Exchange Work.interface) : Prop :=
  match x.call with
  | .store (.upsertDocument _) => True
  | .store (.clearDocumentHash _) => True
  | _ => False

/-- The request takes the chunks of a document away. -/
def Exchange.Deletes (id : Int) (x : Exchange Work.interface) : Prop :=
  match x.call with
  | .store (.deleteChunks j) => j = id
  | _ => False

/-- The chunk that has been added to a document, if one has. -/
def Exchange.added (id : Int) : Exchange Work.interface → List Chunk
  | ⟨.store (.insertChunk j c _), Except.ok _⟩ => if j = id then [c] else []
  | _ => []

namespace Memory

variable {s s' : Memory} {R : Store.Call → Prop} {t : List (Exchange Work.interface)} {id : Int}

/-- Documents stay what they are as long as none is written. -/
theorem documents_of_gives (h : Gives (Serves R) s t s') (ht : ∀ x ∈ t, ¬ x.WritesDocument) :
    s'.documents = s.documents := by
  refine h.keeps (P := fun v => v.documents = s.documents) (fun x hx {v v'} hv hstep => ?_) rfl
  have hkind := ht x hx
  obtain ⟨c, r⟩ := x
  cases hstep with
  | host => exact hv
  | embedded => exact hv
  | store _ now c =>
    cases c with
    | upsertDocument => exact absurd trivial hkind
    | clearDocumentHash => exact absurd trivial hkind
    | _ => exact hv
  | refused => exact hv

/-- What one request adds to the rows of a document. -/
theorem rows_of_serves {x : Exchange Work.interface} (h : Serves R s x.call x.reply s')
    (hx : ¬ x.Deletes id) : s'.rows id = s.rows id ++ (x.added id).map Chunk.row := by
  obtain ⟨c, r⟩ := x
  cases h with
  | host => exact (List.append_nil _).symm
  | embedded => exact (List.append_nil _).symm
  | refused _ c f hc => cases c <;> exact (List.append_nil _).symm
  | store _ now c =>
    cases c with
    | insertChunk j c v =>
      by_cases hj : j = id
      · subst hj
        rw [Exchange.added, if_pos rfl]
        exact rows_insertChunk c v
      · rw [Exchange.added, if_neg hj, List.map_nil, List.append_nil]
        exact congrArg _ ((touches_insertChunk c v).chunksOf_eq id (Ne.symm hj))
    | deleteChunks j =>
      have hj : id ≠ j := fun hj => hx (by rw [hj]; rfl)
      exact (congrArg _ (touches_deleteChunks.chunksOf_eq id hj)).trans (List.append_nil _).symm
    | upsertDocument d =>
      exact (congrArg _ (chunksOf_upsert id)).trans (List.append_nil _).symm
    | _ => exact (List.append_nil _).symm

/-- **The rows of a document grow by what is added,** as long as none are taken away. -/
theorem rows_of_gives (h : Gives (Serves R) s t s') (ht : ∀ x ∈ t, ¬ x.Deletes id) :
    s'.rows id = s.rows id ++ (t.flatMap (Exchange.added id)).map Chunk.row := by
  induction h with
  | nil s => exact (List.append_nil _).symm
  | @cons x s s₁ s₂ t hx rest ih =>
    rw [ih fun y hy => ht y (List.mem_cons_of_mem x hy),
      rows_of_serves hx (ht x List.mem_cons_self), List.flatMap_cons, List.map_append,
      List.append_assoc]

end Memory

end MarkdownIndex
