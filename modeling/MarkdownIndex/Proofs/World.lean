import MarkdownIndex.Proofs.Program
import MarkdownIndex.Proofs.Store.Memory

/-!
# Worlds: files, a store in memory, and what may go wrong

The surroundings of a program at work, as far as they are of consequence: the files, and a store in
memory that may refuse requests, with an embedder that may give any answers it is allowed to.

* `World` — the files and the store.
* `Faults` — which requests may be refused and what may be answered for texts: nothing goes wrong in
  `Faults.none`, `Faults.worst` are as bad as ingestion can bear, and in `Faults.steady` the
  embedder is a function that may fail.
* `World.Answers` — the answers of a world, with the world after each.
* `ends_host`, `ends_store`, `ends_embed` — the endings of programs of one request.
* `files_eq_of_ends`, `wellFormed_of_ends` — what no program can change.
-/

namespace MarkdownIndex

/-- The files that there are, and a store. -/
structure World where
  /-- the files -/
  files : Files.Disk
  /-- the store -/
  memory : Memory

/-- What may go wrong while a program is at work. -/
structure Faults where
  /-- the requests that the store may refuse; when it does, it has done nothing -/
  refuses : Store.Call → Prop
  /-- the answers that the embedder may give for some texts -/
  embeds : List String → Except EmbeddingError (List Embedding) → Prop

/-- The embedder may give as many vectors as there are texts. -/
def Faults.Obliging (F : Faults) : Prop :=
  ∀ texts, ∃ vs, vs.length = texts.length ∧ F.embeds texts (.ok vs)

/-- Nothing goes wrong. -/
def Faults.none : Faults where
  refuses _ := False
  embeds texts r := ∃ vs, vs.length = texts.length ∧ r = .ok vs

theorem Faults.obliging_none : Faults.none.Obliging := fun texts =>
  ⟨List.replicate texts.length [], List.length_replicate, _, List.length_replicate, rfl⟩

/-- Everything may go wrong at any time, but hashes can always be cleared. -/
def Faults.worst : Faults where
  refuses c := ∀ id, c ≠ .clearDocumentHash id
  embeds _ _ := True

theorem Faults.obliging_worst : Faults.worst.Obliging := fun texts =>
  ⟨List.replicate texts.length [], List.length_replicate, trivial⟩

theorem Faults.not_refuses_worst (id : Int) : ¬ Faults.worst.refuses (.clearDocumentHash id) :=
  fun h => h id rfl

/-- The store refuses nothing, and the embedder answers the same to the same texts. -/
def Faults.steady (f : List String → Except EmbeddingError (List Embedding)) : Faults where
  refuses _ := False
  embeds texts r := r = f texts

namespace World

/-- The answers of a world, at any time and with any fault that is allowed for. -/
inductive Answers (F : Faults) : Surroundings Work.interface World
  /-- the files are as they are -/
  | host (w : World) (now : Instant) (c : Host.Call) :
    Answers F w (.host c) (Host.answer w.files now c) w
  /-- the store does what it is asked for -/
  | store (w : World) (now : Instant) (c : Store.Call) :
    Answers F w (.store c) (Except.ok (w.memory.perform now c).1)
      { w with memory := (w.memory.perform now c).2 }
  /-- the store refuses -/
  | refused (w : World) (c : Store.Call) (f : Failure) (h : F.refuses c) :
    Answers F w (.store c) (Except.error f) w
  /-- the embedder answers -/
  | embedded (w : World) (texts : List String) (r : Except EmbeddingError (List Embedding))
    (h : F.embeds texts r) : Answers F w (.embed texts) r w

variable {F : Faults} {w w' : World} {α : Type}

/-! ## Programs of one request -/

theorem ends_host {c : Host.Call} {r : Host.Reply c} :
    Program.Ends (Answers F) (Program.ask (I := Work.interface) (.host c)) w r w' ↔
      ∃ now, r = Host.answer w.files now c ∧ w' = w := by
  refine Program.ends_ask.trans ?_
  constructor
  · intro h
    cases h with
    | host _ now _ => exact ⟨now, rfl, rfl⟩
  · rintro ⟨now, rfl, rfl⟩
    exact Answers.host w' now c

theorem ends_store {c : Store.Call} {r : Store.Reply c} :
    Program.Ends (Answers F) (Work.store c) w r w' ↔
      (∃ now, r = .ok (w.memory.perform now c).1 ∧
        w' = { w with memory := (w.memory.perform now c).2 }) ∨
      ∃ f, F.refuses c ∧ r = .error f ∧ w' = w := by
  refine Program.ends_ask.trans ?_
  constructor
  · intro h
    cases h with
    | store _ now _ => exact Or.inl ⟨now, rfl, rfl⟩
    | refused _ _ f h => exact Or.inr ⟨f, h, rfl, rfl⟩
  · rintro (⟨now, rfl, rfl⟩ | ⟨f, h, rfl, rfl⟩)
    · exact Answers.store w now c
    · exact Answers.refused w' c f h

theorem ends_embed {texts : List String} {r : Except EmbeddingError (List Embedding)} :
    Program.Ends (Answers F) (Work.embed texts) w r w' ↔ F.embeds texts r ∧ w' = w := by
  refine Program.ends_ask.trans ?_
  constructor
  · intro h
    cases h with
    | embedded _ _ _ h => exact ⟨h, rfl⟩
  · rintro ⟨h, rfl⟩
    exact Answers.embedded w' texts r h

/-! ## What no program can change -/

/-- No program changes the files. -/
theorem files_eq_of_ends {p : Work α} {a : α} (h : Program.Ends (Answers F) p w a w') :
    w'.files = w.files := by
  refine h.keeps (P := fun v => v.files = w.files) ?_ rfl
  intro v v' c r hv hr
  cases hr with
  | host => exact hv
  | store => exact hv
  | refused => exact hv
  | embedded => exact hv

/-- **No program makes a store ill-formed.** -/
theorem wellFormed_of_ends {p : Work α} {a : α} (h : Program.Ends (Answers F) p w a w')
    (hw : w.memory.WellFormed) : w'.memory.WellFormed := by
  refine h.keeps (P := fun v => v.memory.WellFormed) ?_ hw
  intro v v' c r hv hr
  cases hr with
  | host => exact hv
  | store _ now c => exact hv.perform now c
  | refused => exact hv
  | embedded => exact hv

/-- **In a world whose embedder answers every program ends.** -/
theorem exists_ends (hF : ∀ texts, ∃ r, F.embeds texts r) (p : Work α) (w : World) :
    ∃ a w', Program.Ends (Answers F) p w a w' := by
  refine Program.exists_ends (fun w c => ?_) p w
  cases c with
  | host c => exact ⟨_, _, Answers.host w 0 c⟩
  | store c => exact ⟨_, _, Answers.store w 0 c⟩
  | embed texts =>
    obtain ⟨r, hr⟩ := hF texts
    exact ⟨r, w, Answers.embedded w texts r hr⟩

end World

end MarkdownIndex
