import Mathlib.Logic.Relation
import MarkdownIndex.Proofs.Files.Name
import MarkdownIndex.Proofs.Ingest.Trace
import MarkdownIndex.Proofs.World

/-!
# Scenes: files that change while a program is at work

Other people write files, remove them and write them again, at any time: between two requests of a
program, and also while it lists the files. The one thing to go by is that a file that is written
gets a time that it never had before; and so does a file that comes to be another one because a link
or a directory on its path has been changed.

* `Scene` — files and a store in memory, with what the files were and what has been asked so far.
* `Scene.Change` — the files change; `Scene.Later` — what that tells about a file whose time is an
  old one: it has not been written in between.
* `Scene.Sees` — what may be answered about the files; a list of files may miss some, and may be
  made up of what was there at different times.
* `Live` — the surroundings of a program: the files may change before every answer, the store does
  what it is asked for, and the embedder answers anything.
-/

namespace MarkdownIndex

open Relation Files Memory Program

/-- Files that change, a store in memory, and what has been asked so far. -/
structure Scene where
  /-- the files -/
  files : Disk
  /-- what the files were before, the latest first -/
  past : List Disk
  /-- the store -/
  memory : Memory
  /-- what has been asked, with the answers -/
  trace : List (Exchange Work.interface)

/-- A world at some time, with what the files were before and what has been asked. -/
def World.scene (w : World) (past : List Disk) (t : List (Exchange Work.interface)) : Scene :=
  ⟨w.files, past, w.memory, t⟩

/-- A file with a time can be read. -/
theorem exists_read_of_modified? {disk : Disk} {p : Path} {t : Int}
    (h : modified? disk p = some t) : ∃ bytes, read disk p = .ok bytes := by
  rw [modified?] at h
  rw [Files.read]
  split at h
  · cases h
  · split at h
    · rename_i bytes _ hfile
      exact ⟨bytes, by simp only [hfile]⟩
    · cases h

namespace Scene

variable {s s' s'' : Scene} {sc : Scanner} {p : Path} {t : Int}

/-! ## Changes -/

/-- The file has the time, or had it once. -/
def Had (s : Scene) (p : Path) (t : Int) : Prop :=
  ∃ f ∈ s.files :: s.past, modified? f p = some t

/-- The file counts, or did once. -/
def Lists (s : Scene) (sc : Scanner) (p : Path) : Prop :=
  ∃ f ∈ s.files :: s.past, ∃ paths, sc.scan f = .ok paths ∧ p ∈ paths

/-- The files change, any number of them at once. A file that is there afterwards is the one that
was there, or has been written and has a time that it never had. -/
structure Change (s s' : Scene) : Prop where
  /-- directories have names -/
  plain : Plain s'.files
  /-- what is written has a new time -/
  same_or_new : ∀ p t, modified? s'.files p = some t →
    (modified? s.files p = some t ∧ read s'.files p = read s.files p) ∨ ¬ s.Had p t
  /-- what was there is the past -/
  past_eq : s'.past = s.files :: s.past
  /-- the store is none of the files -/
  memory_eq : s'.memory = s.memory
  /-- nothing is asked -/
  trace_eq : s'.trace = s.trace

/-- What is known of a scene that comes after another: times that a file had are times that it had,
and a file with such a time has not been written in between. -/
structure Later (s s' : Scene) : Prop where
  /-- nothing is forgotten -/
  had : ∀ {p t}, s.Had p t → s'.Had p t
  /-- an old time means old bytes -/
  same : ∀ {p t}, s.Had p t → modified? s'.files p = some t →
    modified? s.files p = some t ∧ read s'.files p = read s.files p

theorem Later.refl (s : Scene) : Later s s where
  had := id
  same := fun _ h => ⟨h, rfl⟩

theorem Later.trans (h : Later s s') (h' : Later s' s'') : Later s s'' where
  had := fun hs => h'.had (h.had hs)
  same := fun hs ht => by
    obtain ⟨ht', hread'⟩ := h'.same (h.had hs) ht
    obtain ⟨ht, hread⟩ := h.same hs ht'
    exact ⟨ht, hread'.trans hread⟩

theorem Change.later (h : Change s s') : Later s s' where
  had := by
    rintro p t ⟨f, hf, ht⟩
    refine ⟨f, ?_, ht⟩
    rw [h.past_eq]
    exact List.mem_cons_of_mem _ hf
  same := fun hs ht => (h.same_or_new _ _ ht).resolve_right fun hnew => hnew hs

/-- Directories have names, and always had. -/
def Proper (s : Scene) : Prop := ∀ f ∈ s.files :: s.past, Plain f

theorem Change.proper (h : Change s s') (hs : s.Proper) : s'.Proper := by
  intro f hf
  rw [h.past_eq] at hf
  rcases List.mem_cons.mp hf with rfl | hf
  · exact h.plain
  · exact hs f hf

/-- What any number of changes leave as it is. -/
theorem of_changes (h : ReflTransGen Change s s') :
    Later s s' ∧ (s.Proper → s'.Proper) ∧ s'.memory = s.memory ∧ s'.trace = s.trace := by
  induction h with
  | refl => exact ⟨Later.refl s, id, rfl, rfl⟩
  | tail _ hstep ih =>
    obtain ⟨hlater, hproper, hmemory, htrace⟩ := ih
    exact ⟨hlater.trans hstep.later, fun hs => hstep.proper (hproper hs),
      hstep.memory_eq.trans hmemory, hstep.trace_eq.trans htrace⟩

/-! ## Answers -/

/-- What may be answered about the files, as long as nobody says stop. Every file of a list counts,
and has the time that is given, but not necessarily at the end: it takes time to make a list. -/
def Sees (s : Scene) : (c : Work.Call) → Work.Reply c → Prop
  | .host (.scan sc), r => ∀ paths, r = Except.ok paths → ∀ p ∈ paths, s.Lists sc p
  | .host (.snapshot sc), r =>
    ∀ found : Snapshot, r = Except.ok found → ∀ e ∈ found, s.Lists sc e.1 ∧ s.Had e.1 e.2
  | .host c, r => ∃ now, r = Host.answer s.files now c
  | _, _ => True

/-- The machine may answer from the files as they are. -/
theorem sees_answer (s : Scene) (now : Instant) (c : Host.Call) :
    s.Sees (.host c) (Host.answer s.files now c) := by
  cases c with
  | scan sc => exact fun paths hpaths p hp => ⟨s.files, List.mem_cons_self, paths, hpaths, hp⟩
  | snapshot sc =>
    intro found hfound e he
    obtain ⟨hlists, hhad⟩ := Scanner.of_mem_snapshot hfound he
    exact ⟨⟨s.files, List.mem_cons_self, hlists⟩, s.files, List.mem_cons_self, hhad⟩
  | _ => exact ⟨now, rfl⟩

theorem Lists.spells (h : s.Lists sc p) (hs : s.Proper) : sc.Spells p := by
  obtain ⟨f, hf, paths, hscan, hp⟩ := h
  exact Scanner.spells_of_scan (hs f hf) hscan hp

end Scene

open Scene

/-- The surroundings of a program whose files change: any number of changes, then an answer. The
store refuses nothing. -/
inductive Live : Surroundings Work.interface Scene
  /-- the files change, and a request is answered -/
  | answer {s s₁ : Scene} {c : Work.Call} {r : Work.Reply c} {m : Memory}
    (hchange : ReflTransGen Change s s₁) (hsees : s₁.Sees c r)
    (hserves : Serves (fun _ => False) s₁.memory c r m) :
    Live s c r { s₁ with memory := m, trace := s₁.trace ++ [⟨c, r⟩] }

namespace Live

variable {s s' : Scene} {c : Work.Call} {r : Work.Reply c} {p : Path} {t : Int} {α : Type}
variable {u : List (Exchange Work.interface)} {a : α} {w : Work α}

theorem serves (h : Live s c r s') : Serves (fun _ => False) s.memory c r s'.memory := by
  obtain ⟨hchange, -, hserves⟩ := h
  rwa [(of_changes hchange).2.2.1] at hserves

theorem trace_eq (h : Live s c r s') : s'.trace = s.trace ++ [⟨c, r⟩] := by
  obtain ⟨hchange, -, -⟩ := h
  rw [(of_changes hchange).2.2.2]

theorem sees (h : Live s c r s') : s'.Sees c r := by
  obtain ⟨-, hsees, -⟩ := h
  exact hsees

theorem later (h : Live s c r s') : Later s s' := by
  obtain ⟨hchange, -, -⟩ := h
  obtain ⟨hhad, hsame⟩ := (of_changes hchange).1
  exact ⟨hhad, hsame⟩

theorem proper (h : Live s c r s') (hs : s.Proper) : s'.Proper := by
  obtain ⟨hchange, -, -⟩ := h
  exact (of_changes hchange).2.1 hs

theorem trace_of_gives (h : Gives Live s u s') : s'.trace = s.trace ++ u := by
  induction h with
  | nil s => exact (List.append_nil _).symm
  | cons h _ ih => rw [ih, h.trace_eq, List.append_assoc, List.singleton_append]

theorem serves_of_gives (h : Gives Live s u s') :
    Gives (Serves fun _ => False) s.memory u s'.memory :=
  h.map Scene.memory serves

/-- What has been asked stays in the trace. -/
theorem prefix_of_ends (h : Ends Live w s a s') : s.trace <+: s'.trace := by
  obtain ⟨t, -, hgives⟩ := ends_iff_traces.mp h
  exact ⟨t, (trace_of_gives hgives).symm⟩

/-- A program is at work in a later scene than it was started in. -/
theorem later_of_ends (h : Ends Live w s a s') : Later s s' :=
  h.keeps (P := Later s) (fun hs hstep => hs.trans hstep.later) (Later.refl s)

theorem proper_of_ends (h : Ends Live w s a s') (hs : s.Proper) : s'.Proper :=
  h.keeps (P := Proper) (fun hs hstep => hstep.proper hs) hs

/-! ## Files that keep still -/

/-- **What a world answers can be answered in its scenes,** if its store refuses nothing. -/
theorem gives_scene {f : List String → Except EmbeddingError (List Embedding)} {w w' : World}
    (h : Gives (World.Answers (.steady f)) w u w') (past : List Disk)
    (t : List (Exchange Work.interface)) :
    Gives Live (w.scene past t) u (w'.scene past (t ++ u)) := by
  induction h generalizing t with
  | nil w =>
    rw [List.append_nil]
    exact .nil _
  | @cons x w w₁ w₂ u hx _ ih =>
    have hstep : Live (w.scene past t) x.call x.reply (w₁.scene past (t ++ [x])) := by
      obtain ⟨c, r⟩ := x
      cases hx with
      | host w now c => exact .answer .refl (sees_answer _ now c) (.host _ _ _)
      | store w now c => exact .answer .refl trivial (.store _ now _)
      | refused w c f hrefused => exact hrefused.elim
      | embedded w texts r => exact .answer .refl trivial (.embedded _ _ _)
    rw [← List.singleton_append, ← List.append_assoc]
    exact .cons hstep (ih _)

end Live

end MarkdownIndex
