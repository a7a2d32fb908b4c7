import MarkdownIndex.Proofs.Ingest.Passes
import MarkdownIndex.Proofs.Watch.Pass

/-!
# Edits: what a watcher does not miss

Files are written while a watcher is at work. When a look has found nothing new and nothing has been
written since, then every file that has changed since the first look of the watcher has been taken
care of. Of the files that have not changed since then, a watcher knows nothing; those are the
business of a pass over all files before it. Between that pass and the first look nobody takes
notice of an edit. And where two files have paths with one text, the store knows only one of them.

* `Quiet` — a watcher that has nothing to do; `Resting`, `Quiet.resting` — what its polls have come
  to.
* `UpToDate` — the store has what is in a file, or ingestion has failed on it.
* `upToDate_of_quiet` — no edit is lost that comes after the first look, of a file that has the text
  of its path for itself; `not_always_upToDate` — of others it may be.
* `upToDate_of_processAll` — with a pass over all files before, every such file is up to date but
  those that have been written between the two; `not_upToDate_of_processAll` — these need not be.
-/

namespace MarkdownIndex

open Relation Files Memory Program Watcher

variable {g : Ingestor} {s s₁ s₂ s' : Scene} {base known found : Snapshot} {interval n : Nat}
variable {first : Except ScanError Snapshot} {p : Path} {time : Int}

/-! ## Nothing to do -/

/-- A watcher that nobody tells to stop has begun with a first look, and has nothing to do: it has
done nothing after its last look, so that no file has changed; and what is there now was there then,
and has not been written since. -/
inductive Quiet (g : Ingestor) (interval : Nat) (first : Except ScanError Snapshot)
    (s s' : Scene) : Prop
  /-- after some polls -/
  | intro {n : Nat} {events : List WatchEvent} {asked : List (Exchange Work.interface)}
    {current : Snapshot} {s₁ : Scene} (hwatch : Ends Live (watch g interval n) s events s₁)
    (htrace : s₁.trace =
      s.trace ++ .look g.scanner first :: (asked ++ [.look g.scanner (.ok current)]))
    (hchange : ReflTransGen Scene.Change s₁ s')
    (hunwritten : ∀ found, g.scanner.snapshot s'.files = .ok found → ∀ e ∈ found, e ∈ current)

/-- The store has the hash of what is in a file, or the last run on the file has failed on just
that. -/
def UpToDate (g : Ingestor) (s : Scene) (p : Path) : Prop :=
  ∃ bytes, Files.read s.files p = .ok bytes ∧
    (s.memory.hash? (Path.text p) = some (Sha256.hexDigest bytes) ∨ g.FailedOn p bytes s.trace)

/-- A watcher that has begun with a snapshot has polled, rested and looked, and no file has changed;
nor has one been written since. -/
inductive Resting (g : Ingestor) (interval : Nat) (base : Snapshot) (s s' : Scene) : Prop
  /-- after some polls, a rest and a look -/
  | intro {n : Nat} {known current : Snapshot} {s₁ s₂ s₃ : Scene}
    (hpolls : Polls g interval n base s known s₁)
    (hrest : Ends Live (Work.rest interval) s₁ false s₂)
    (hlook : Live s₂ (.host (.snapshot g.scanner)) (Except.ok current) s₃)
    (hsame : known.changes current = []) (hchange : ReflTransGen Scene.Change s₃ s')
    (hunwritten : ∀ found, g.scanner.snapshot s'.files = .ok found → ∀ e ∈ found, e ∈ current)

/-- The first look in the trace of a watcher is that which it has begun with. -/
theorem exists_look_of_baseline (h : Ends Live (Watcher.baseline g) s base s₁) :
    ∃ r, base = r.toOption.getD [] ∧ s₁.trace = s.trace ++ [.look g.scanner r] := by
  rcases of_ends_baseline h with ⟨e, hlook, rfl⟩ | hlook
  · exact ⟨.error e, rfl, hlook.trace_eq⟩
  · exact ⟨.ok base, rfl, hlook.trace_eq⟩

/-- **A watcher that has nothing to do has found no change in its last poll.** -/
theorem Quiet.resting (h : Quiet g interval first s s') :
    ∃ s₁, Ends Live (Watcher.baseline g) s (first.toOption.getD []) s₁ ∧
      Resting g interval (first.toOption.getD []) s₁ s' := by
  obtain @⟨n, events, asked, current, s₂, hwatch, htrace, hchange, hunwritten⟩ := h
  obtain ⟨base, s₁, known, hbase, hpolls⟩ := ends_watch_iff.mp ⟨events, hwatch⟩
  obtain ⟨r, rfl, hs₁⟩ := exists_look_of_baseline hbase
  obtain ⟨t, ht⟩ := hpolls.prefix_trace
  have hasked : .look g.scanner r :: t =
      .look g.scanner first :: (asked ++ [.look g.scanner (.ok current)]) := by
    rw [htrace, hs₁, List.append_assoc] at ht
    exact List.append_cancel_left ht
  obtain ⟨hfirst, rfl⟩ := List.cons.inj hasked
  obtain rfl := eq_of_heq (Exchange.mk.inj hfirst).2
  refine ⟨s₁, hbase, ?_⟩
  cases n with
  | zero =>
    -- there has been no look but the first
    cases hpolls
    simp at ht
  | succ n =>
    obtain ⟨known₁, s₃, s₄, events, hbefore, hrest, hpoll⟩ := polls_succ_iff.mp hpolls
    have hend : (s₂.trace).getLast? = some (.look g.scanner (.ok current)) := by
      rw [← ht, ← List.append_assoc, List.getLast?_concat]
    rcases of_ends_poll hpoll with ⟨e, hlook, -⟩ | ⟨s₅, events, hlook, hhandle⟩
    · rw [hlook.trace_eq, List.getLast?_concat] at hend
      cases eq_of_heq (Exchange.mk.inj (Option.some.inj hend)).2
    · obtain ⟨u, hu, hlooks, hnone⟩ := trace_of_handleAll hhandle
      rcases List.eq_nil_or_concat u with rfl | ⟨u, x, rfl⟩
      · obtain hsame := hnone rfl
        rw [hsame] at hhandle
        obtain ⟨-, rfl⟩ := ends_done.mp hhandle
        rw [hlook.trace_eq, List.getLast?_concat] at hend
        cases eq_of_heq (Exchange.mk.inj (Option.some.inj hend)).2
        exact .intro hbefore hrest hlook hsame hchange hunwritten
      · -- what has been asked last would be about a file that has changed
        rw [hu, List.concat_eq_append, ← List.append_assoc, List.getLast?_concat] at hend
        have hx := hlooks x (by simp) g.scanner (.ok current)
        exact absurd (Option.some.inj hend) hx

/-- And one that has found no change has nothing to do. -/
theorem quiet_of_resting {r : Except ScanError Snapshot} {n : Nat} {known current : Snapshot}
    {s s₁ s₂ s₃ s₄ : Scene} (hfirst : Live s (.host (.snapshot g.scanner)) r s₁)
    (hpolls : Polls g interval n (r.toOption.getD []) s₁ known s₂)
    (hrest : Ends Live (Work.rest interval) s₂ false s₃)
    (hlook : Live s₃ (.host (.snapshot g.scanner)) (Except.ok current) s₄)
    (hsame : known.changes current = [])
    (hfound : ∀ found, g.scanner.snapshot s₄.files = .ok found → ∀ e ∈ found, e ∈ current) :
    Quiet g interval r s s₄ := by
  have hpoll : Ends Live (poll g known) s₃ (current, []) s₄ :=
    ends_bind.mpr ⟨.ok current, s₄, ends_ask.mpr hlook, ends_bind.mpr ⟨[], s₄,
      hsame ▸ ends_done.mpr ⟨rfl, rfl⟩, ends_done.mpr ⟨rfl, rfl⟩⟩⟩
  have hbase : Ends Live (Watcher.baseline g) s (r.toOption.getD []) s₁ :=
    ends_bind.mpr ⟨r, s₁, ends_ask.mpr hfirst, ends_done.mpr ⟨rfl, rfl⟩⟩
  have hmore := polls_succ_iff.mpr ⟨known, s₂, s₃, [], hpolls, hrest, hpoll⟩
  obtain ⟨events, hwatch⟩ := ends_watch_iff.mpr ⟨_, s₁, current, hbase, hmore⟩
  obtain ⟨t, ht⟩ := hpolls.prefix_trace
  obtain ⟨u, hu⟩ := Live.prefix_of_ends hrest
  have hasked : s₄.trace =
      s.trace ++ .look g.scanner r :: (t ++ u ++ [.look g.scanner (.ok current)]) := by
    rw [hlook.trace_eq, ← hu, ← ht, hfirst.trace_eq]
    simp
  exact .intro hwatch hasked .refl hfound

theorem Polls.later {known' : Snapshot}
    (h : Polls g interval n known s known' s') : Scene.Later s s' := by
  induction h with
  | none => exact Scene.Later.refl _
  | poll hrest hpoll _ ih =>
    exact ((Live.later_of_ends hrest).trans (Live.later_of_ends hpoll)).trans ih

theorem Polls.proper {known' : Snapshot}
    (h : Polls g interval n known s known' s') (hs : s.Proper) : s'.Proper := by
  induction h with
  | none => exact hs
  | poll hrest hpoll _ ih => exact ih (Live.proper_of_ends hpoll (Live.proper_of_ends hrest hs))

theorem Resting.later (h : Resting g interval base s s') : Scene.Later s s' := by
  obtain ⟨hpolls, hrest, hlook, -, hchange, -⟩ := h
  exact ((hpolls.later.trans (Live.later_of_ends hrest)).trans hlook.later).trans
    (Scene.of_changes hchange).1

theorem Resting.proper (h : Resting g interval base s s') (hs : s.Proper) : s'.Proper := by
  obtain ⟨hpolls, hrest, hlook, -, hchange, -⟩ := h
  refine (Scene.of_changes hchange).2.1 ?_
  exact hlook.proper (Live.proper_of_ends hrest (hpolls.proper hs))

/-- The files that are found now are spelled as a scanner does. -/
theorem Scene.Proper.spells (hs : s.Proper) (hfound : g.scanner.snapshot s.files = .ok found)
    (hp : (p, time) ∈ found) : g.scanner.Spells p := by
  obtain ⟨⟨paths, hscan, hpaths⟩, -⟩ := Scanner.of_mem_snapshot hfound hp
  exact Scanner.spells_of_scan (hs _ List.mem_cons_self) hscan hpaths

/-- **A file is up to date when a watcher has nothing to do,** if it has changed since the watcher
has begun, or had been caught by then. -/
theorem Resting.upToDate (h : Resting g interval base s s') (hs : s.Proper)
    (haccounts : g.Accounts s.memory s.trace) (hfound : g.scanner.snapshot s'.files = .ok found)
    (hp : (p, time) ∈ found) (hone : Path.Apart (pathsRead s'.trace) p)
    (hcaught : base.time? p ≠ some time ∨ Caught p time s) : UpToDate g s' p := by
  have hspells := (h.proper hs).spells hfound hp
  have htime := (Scanner.of_mem_snapshot hfound hp).2
  obtain @⟨n, known, current, s₁, s₂, s₃, hpolls, hrest, hlook, hsame, hchange, hunwritten⟩ := h
  -- a file that is there has the time that the watcher knows
  have hknown : known.time? p = some time := by
    by_contra hne
    obtain ⟨c, hc, -⟩ := exists_mem_changes (hunwritten found hfound _ hp) hne
    rw [hsame] at hc
    cases hc
  have hcaught₁ : Caught p time s₁ := by
    rcases hcaught with hbase | hcaught
    · exact (keepsUp_self g base s).polls hs hpolls p time hspells hknown hbase
    · exact hcaught.polls hpolls
  have hcaught' := ((hcaught₁.of_ends hrest).live hlook).of_changes hchange
  have haccounts' : g.Accounts s'.memory s'.trace := by
    obtain ⟨-, -, hmemory, htrace⟩ := Scene.of_changes hchange
    rw [hmemory, htrace]
    have hpolled := haccounts.polls hpolls
    have hrested := hpolled.host (ends_ask.mp hrest) fun _ hc => nomatch hc
    exact hrested.host hlook fun _ hc => nomatch hc
  exact hcaught'.hash_or_failed haccounts' hone htime

/-! ## Worlds that keep still -/

/-- The machine answers from files that keep still. -/
theorem live_scene (w : World) (past : List Disk) (t : List (Exchange Work.interface))
    {c : Host.Call} {r : Host.Reply c} (hr : Host.answer w.files 0 c = r) :
    Live (w.scene past t) (.host c) r (w.scene past (t ++ [⟨.host c, r⟩])) := by
  subst hr
  exact .answer .refl (Scene.sees_answer _ 0 c) (.host _ _ _)

section Still

variable {f : List String → Except EmbeddingError (List Embedding)} {w w₁ : World}
variable {past : List Disk} {t u : List (Exchange Work.interface)} {events : List WatchEvent}

/-- A poll of files that keep still. -/
theorem poll_scene (known : Snapshot) (past : List Disk) (t : List (Exchange Work.interface))
    (hfound : g.scanner.snapshot w.files = .ok found)
    (hall : Ends Live (handleAll g (known.changes found))
      (w.scene past (t ++ [.look g.scanner (.ok found)])) events s') :
    Ends Live (poll g known) (w.scene past t) (found, events) s' := by
  have hlook := live_scene w past t (c := .snapshot g.scanner) hfound
  refine ends_bind.mpr ⟨.ok found, _, ends_ask.mpr hlook, ?_⟩
  exact ends_bind.mpr ⟨events, s', hall, ends_done.mpr ⟨rfl, rfl⟩⟩

/-- A file that keeps still is handed over, and then others are. -/
theorem handleAll_scene_cons {c : Snapshot.Change} {cs : List Snapshot.Change}
    {o : Except IngestError FileOutcome} (hrun : Traces (g.processFile c.path).run u o)
    (hgives : Gives (World.Answers (.steady f)) w u w₁)
    (hrest : Ends Live (handleAll g cs) (w₁.scene past (t ++ [.goesOn] ++ u)) events s') :
    Ends Live (handleAll g (c :: cs)) (w.scene past t) (⟨c, o.toOption⟩ :: events) s' := by
  have hstop := live_scene w past t (c := .stopping) rfl
  have hgives' := Live.gives_scene hgives past (t ++ [.goesOn])
  exact ends_handleAll_cons hstop (ends_iff_traces.mpr ⟨u, hrun, hgives'⟩) hrest

end Still

/-- A rest that nobody disturbs. -/
abbrev rested (interval : Nat) : Exchange Work.interface := ⟨.host (.rest interval), false⟩

/-- Files whose times are known have not changed. -/
theorem changes_eq_nil (h : ∀ e ∈ found, known.time? e.1 = some e.2) :
    known.changes found = [] := by
  refine List.eq_nil_iff_forall_not_mem.mpr fun c hc => ?_
  rw [Snapshot.changes, List.mem_mergeSort] at hc
  obtain ⟨⟨q, t⟩, he, hchange⟩ := List.mem_filterMap.mp hc
  simp [Snapshot.change?, h _ he] at hchange

/-- A watcher that knows the files has nothing to do as long as they keep still. -/
theorem quiet_scene (interval : Nat) {r : Except ScanError Snapshot} {w : World} {past : List Disk}
    {t : List (Exchange Work.interface)}
    (hfirst : Live s (.host (.snapshot g.scanner)) r s₁)
    (hpolls : Polls g interval n (r.toOption.getD []) s₁ known (w.scene past t))
    (hfound : g.scanner.snapshot w.files = .ok known)
    (hknown : ∀ e ∈ known, known.time? e.1 = some e.2) :
    Quiet g interval r s
      (w.scene past (t ++ [rested interval] ++ [.look g.scanner (.ok known)])) := by
  have hrest : Ends Live (Work.rest interval) (w.scene past t) false _ :=
    ends_ask.mpr (live_scene w past t (c := .rest interval) rfl)
  have hlook := live_scene w past (t ++ [rested interval]) (c := .snapshot g.scanner) hfound
  refine quiet_of_resting hfirst hpolls hrest hlook (changes_eq_nil hknown) ?_
  rintro found hfound' e he
  obtain rfl := Except.ok.inj (hfound.symm.trans hfound')
  exact he

/-! ## A file that appears -/

/-- What there is to be found of the sample world. -/
def sampleSnapshot : Snapshot := [(samplePath, 0)]

theorem modified?_sampleWorld : modified? sampleWorld.files samplePath = some 0 := by
  decide +kernel

theorem snapshot_sampleWorld :
    watchIngestor.scanner.snapshot sampleWorld.files = .ok sampleSnapshot := by
  have hfound : ([samplePath].filterMap fun p => (modified? sampleWorld.files p).map (p, ·)) =
      sampleSnapshot := by simp [modified?_sampleWorld, sampleSnapshot]
  rw [Scanner.snapshot, scan_sampleWorld]
  exact congrArg Except.ok hfound

theorem time?_sampleSnapshot : ∀ e ∈ sampleSnapshot, sampleSnapshot.time? e.1 = some e.2 := by
  decide +kernel

theorem changes_nil_sampleSnapshot :
    Snapshot.changes [] sampleSnapshot = [⟨samplePath, .created⟩] := by
  simp [Snapshot.changes, Snapshot.change?, Snapshot.time?, sampleSnapshot]

/-- A directory without files, and an empty store. -/
def emptyWorld : World := ⟨flatDisk [], {}⟩

theorem modified?_emptyWorld (p : Path) : modified? emptyWorld.files p = none := by
  rw [modified?]
  split
  · rfl
  · rename_i place _
    rcases place with _ | ⟨n, place⟩ <;> rfl

/-- A scene that begins with plain files is proper. -/
theorem proper_scene {w : World} (h : Plain w.files) : (w.scene [] []).Proper := fun _ hf =>
  List.mem_singleton.mp hf ▸ h

theorem plain_emptyWorld : Plain emptyWorld.files :=
  plain_flatDisk fun _ he => absurd he List.not_mem_nil

theorem plain_sampleWorld : Plain sampleWorld.files := by
  refine plain_flatDisk fun e he => ?_
  obtain rfl := List.mem_singleton.mp he
  exact ⟨by decide +kernel, trivial⟩

/-- The file of the sample world appears in the empty directory. -/
theorem change_appeared (t : List (Exchange Work.interface)) :
    Scene.Change (emptyWorld.scene [] t) (sampleWorld.scene [emptyWorld.files] t) where
  plain := plain_sampleWorld
  same_or_new := by
    rintro p time -
    refine Or.inr ?_
    rintro ⟨f, hf, htime⟩
    obtain rfl := List.mem_singleton.mp hf
    cases (modified?_emptyWorld p).symm.trans htime
  past_eq := rfl
  memory_eq := rfl
  trace_eq := rfl

/-- In the empty directory there is nothing to be found. -/
theorem live_nothing (c : Host.Call) (r : Host.Reply c)
    (h : (emptyWorld.scene [] []).Sees (.host c) r) :
    Live (emptyWorld.scene [] []) (.host c) r (emptyWorld.scene [] [⟨.host c, r⟩]) :=
  .answer .refl h (.host _ _ _)

/-- The file appears, and then the machine answers. -/
theorem live_appeared (t : List (Exchange Work.interface)) (c : Host.Call) (r : Host.Reply c)
    (hr : Host.answer sampleWorld.files 0 c = r) :
    Live (emptyWorld.scene [] t) (.host c) r
      (sampleWorld.scene [emptyWorld.files] (t ++ [⟨.host c, r⟩])) := by
  subst hr
  exact .answer (.single (change_appeared t)) (Scene.sees_answer _ 0 c) (.host _ _ _)

/-! ## The watcher alone -/

/-- **No edit is lost.** Say that files change at any time, with a new time whenever one is written,
while a watcher is at work that is not told to stop; the store refuses nothing, but looks may fail
and files may go. Whenever the watcher has done nothing after a look and nothing has been written
since, every file is up to date whose time is not the one that it had in the first look, unless
another file has been read whose path has the same text. -/
theorem upToDate_of_quiet (hs : s.Proper) (hm : s.memory.WellFormed) (ht : s.trace = [])
    (hquiet : Quiet g interval first s s') (hfound : g.scanner.snapshot s'.files = .ok found) :
    ∀ p time, (p, time) ∈ found → Path.Apart (pathsRead s'.trace) p →
      (first.toOption.getD []).time? p ≠ some time → UpToDate g s' p := by
  intro p time hp hone hne
  obtain ⟨s₁, hbase, hresting⟩ := hquiet.resting
  have haccounts : g.Accounts s.memory s.trace := ht ▸ Ingestor.accounts_nil hm
  exact hresting.upToDate (Live.proper_of_ends hbase hs) (haccounts.baseline hbase) hfound hp hone
    (Or.inl hne)

/-- A file that appears after the first look is up to date once it has been noticed. -/
theorem upToDate_of_quiet_appeared : ∃ s,
    Quiet watchIngestor 2000 (.ok []) (emptyWorld.scene [] []) s ∧
      UpToDate watchIngestor s samplePath := by
  have hfirst := live_nothing (.snapshot watchIngestor.scanner) (Except.ok [])
    fun found hfound e he => by cases hfound; cases he
  -- the file appears while the watcher rests, and the poll handles it
  have hrest := live_appeared [.look watchIngestor.scanner (.ok [])] (.rest 2000) false rfl
  obtain ⟨o, w, hrun⟩ := World.exists_ends (Ingestor.exists_embeds_steady Ingestor.emptyVectors)
    (watchIngestor.processFile samplePath).run sampleWorld
  obtain ⟨u, htraces, hgives⟩ := ends_iff_traces.mp hrun
  have hpoll := poll_scene [] [emptyWorld.files]
    ([.look watchIngestor.scanner (.ok [])] ++ [rested 2000]) snapshot_sampleWorld
    (changes_nil_sampleSnapshot ▸
    handleAll_scene_cons (c := ⟨samplePath, .created⟩) htraces hgives (Ends.done _ _))
  have hfiles : w.files = sampleWorld.files := World.files_eq_of_ends hrun
  have hfound : watchIngestor.scanner.snapshot w.files = .ok sampleSnapshot :=
    hfiles ▸ snapshot_sampleWorld
  have hquiet := quiet_scene 2000 hfirst (.poll (ends_ask.mpr hrest) hpoll (.none _ _)) hfound
    time?_sampleSnapshot
  refine ⟨_, hquiet, ?_⟩
  refine upToDate_of_quiet (proper_scene plain_emptyWorld) wellFormed_empty rfl hquiet hfound
    samplePath 0 List.mem_cons_self ?_ (Option.some_ne_none 0).symm
  -- no other file has been read
  have hread : pathsRead u = [samplePath] := by
    obtain ⟨_, _, -, -, hpaths, -⟩ := (Ingestor.course_of_traces htraces).lastRead?_eq
    exact hpaths
  intro q hq _
  simp only [World.scene, pathsRead_append, hread] at hq
  exact List.mem_singleton.mp hq

/-! ## Files with one text -/

/-- A list of files at the start of a pass. -/
abbrev listed (paths : List Path) : Exchange Work.interface :=
  ⟨.host (.scan watchIngestor.scanner), Except.ok paths⟩

/-- What there is to be found of two files whose paths have one text. -/
def twinSnapshot : Snapshot :=
  [(Ingestor.twinPath 254, 0), (Ingestor.twinPath 255, 0)]

theorem snapshot_twinWorld :
    watchIngestor.scanner.snapshot Ingestor.twinWorld.files = .ok twinSnapshot := by
  have hfound : ([Ingestor.twinPath 254, Ingestor.twinPath 255].filterMap fun p =>
      (modified? Ingestor.twinWorld.files p).map (p, ·)) = twinSnapshot := by decide +kernel
  rw [Scanner.snapshot, Ingestor.scan_twinWorld]
  exact congrArg Except.ok hfound

theorem time?_twinSnapshot : ∀ e ∈ twinSnapshot, twinSnapshot.time? e.1 = some e.2 := by
  decide +kernel

theorem changes_nil_twinSnapshot : Snapshot.changes [] twinSnapshot =
    [⟨Ingestor.twinPath 254, .created⟩, ⟨Ingestor.twinPath 255, .created⟩] := by
  refine List.mergeSort_of_pairwise ?_
  decide +kernel

theorem plain_twinWorld : Plain Ingestor.twinWorld.files := by
  refine plain_flatDisk fun e he => ?_
  rcases List.mem_pair.mp he with rfl | rfl <;> exact ⟨by decide +kernel, trivial⟩

/-- The first file is not up to date once the second one has been processed after it. -/
theorem not_upToDate_twin {t u b c : List (Exchange Work.interface)}
    (a : List (Exchange Work.interface))
    (hfiles : s.files = Ingestor.twinWorld.files)
    (hhash : s.memory.hash? "./a\uFFFD.md" = some (Sha256.hexDigest [35, 32, 66]))
    (ht : Traces (watchIngestor.processFile (Ingestor.twinPath 254)).run t (.ok (.processed 1)))
    (hu : Traces (watchIngestor.processFile (Ingestor.twinPath 255)).run u (.ok (.processed 1)))
    (hb : lastRead? (Ingestor.twinPath 254) b = none)
    (hc : lastRead? (Ingestor.twinPath 254) c = none) (htrace : s.trace = a ++ t ++ (b ++ u ++ c)) :
    ¬ UpToDate watchIngestor s (Ingestor.twinPath 254) := by
  rintro ⟨bytes, hbytes, hheld | hfailed⟩
  · rw [hfiles, Ingestor.read_twinWorld.1] at hbytes
    obtain rfl := Except.ok.inj hbytes
    rw [Ingestor.text_twinPath (Or.inl rfl), hhash] at hheld
    exact Ingestor.hexDigest_headings_ne (Option.some.inj hheld).symm
  · -- it has not been read again
    obtain ⟨_, _, -, -, -, -, hothers⟩ := (Ingestor.course_of_traces hu).lastRead?_eq
    have hlast : lastRead? (Ingestor.twinPath 254) (b ++ u ++ c) = none := by
      rw [lastRead?_append, lastRead?_append, hb, hc, hothers _ (by decide +kernel)]
      rfl
    rw [htrace] at hfailed
    exact Ingestor.not_failedOn_of_ok ht hlast hfailed

/-- The two files have turns one after the other, as in a pass over all files, and the store is left
with the hash of the second one. -/
theorem exists_twin_runs : ∃ t u w₁ w report,
    Traces (watchIngestor.processFile (Ingestor.twinPath 254)).run t (.ok (.processed 1)) ∧
      Traces (watchIngestor.processFile (Ingestor.twinPath 255)).run u (.ok (.processed 1)) ∧
      Traces watchIngestor.processAll
        (listed [Ingestor.twinPath 254, Ingestor.twinPath 255] :: (t ++ u)) (.ok report) ∧
      Gives (World.Answers (.steady Ingestor.emptyVectors)) Ingestor.twinWorld t w₁ ∧
      Gives (World.Answers (.steady Ingestor.emptyVectors)) w₁ u w ∧
      w.files = Ingestor.twinWorld.files ∧
      w.memory.hash? "./a\uFFFD.md" = some (Sha256.hexDigest [35, 32, 66]) := by
  obtain ⟨xs, report, w, hpass⟩ := Ingestor.exists_pass
    (Ingestor.exists_embeds_steady Ingestor.emptyVectors) Ingestor.scan_twinWorld
  obtain ⟨⟨t, u, rfl⟩, hhash⟩ := Ingestor.twins_processed rfl wellFormed_empty
    (Option.some_ne_none _).symm hpass
  obtain ⟨hfirst, hsecond⟩ := List.forall_mem_cons.mp hpass.turns
  obtain ⟨w₁, hscan, hrest⟩ := gives_cons.mp hpass.gives
  obtain ⟨_, -, rfl⟩ := World.ends_host.mp (ends_ask.mpr hscan)
  obtain ⟨w₁, ht, hu⟩ := gives_append.mp hrest
  replace hu : Gives (World.Answers (.steady Ingestor.emptyVectors)) w₁ u w := by
    simpa using hu
  have htraces := hpass.traces
  simp only [Ingestor.passTrace, List.map_cons, List.map_nil, List.flatMap_cons,
    List.flatMap_nil, List.append_nil] at htraces
  rw [hash_holding] at hhash
  exact ⟨t, u, w₁, w, report, hfirst, hsecond _ List.mem_cons_self, htraces, ht, hu,
    hpass.files_eq, hhash⟩

/-- **Of a file whose path has the text of another one an edit may be lost:** here both have been
processed, and the store is left with the hash of the other one. -/
theorem not_always_upToDate :
    ¬ ∀ (g : Ingestor) (interval : Nat) (first : Except ScanError Snapshot) (s s' : Scene)
      (found : Snapshot), s.Proper → s.memory.WellFormed → s.trace = [] →
      Quiet g interval first s s' → g.scanner.snapshot s'.files = .ok found →
      ∀ p time, (p, time) ∈ found → (first.toOption.getD []).time? p ≠ some time →
        UpToDate g s' p := by
  intro hupToDate
  obtain ⟨t, u, w₁, w, -, ht, hu, -, hgives₁, hgives₂, hfiles, hhash⟩ := exists_twin_runs
  have hscanner : watchIngestor.scanner.snapshot w.files = .ok twinSnapshot :=
    hfiles ▸ snapshot_twinWorld
  -- the files cannot be listed at first, and then they are both news
  have hfirst : Live (Ingestor.twinWorld.scene [] []) (.host (.snapshot watchIngestor.scanner))
      (Except.error (.noRoot Path.here)) (Ingestor.twinWorld.scene []
        [.look watchIngestor.scanner (.error (.noRoot Path.here))]) :=
    .answer .refl (fun found hfound => nomatch hfound) (.host _ _ _)
  have hrest := live_scene Ingestor.twinWorld []
    [.look watchIngestor.scanner (.error (.noRoot Path.here))] (c := .rest 2000) rfl
  have hpoll := poll_scene [] []
    ([.look watchIngestor.scanner (.error (.noRoot Path.here))] ++ [rested 2000])
    snapshot_twinWorld (changes_nil_twinSnapshot ▸
    handleAll_scene_cons (c := ⟨Ingestor.twinPath 254, .created⟩) ht hgives₁
      (handleAll_scene_cons (c := ⟨Ingestor.twinPath 255, .created⟩) hu hgives₂ (Ends.done _ _)))
  have hquiet := quiet_scene 2000 hfirst (.poll (ends_ask.mpr hrest) hpoll (.none _ _)) hscanner
    time?_twinSnapshot
  have hupToDate' := hupToDate watchIngestor 2000 _ _ _ twinSnapshot
    (proper_scene plain_twinWorld) wellFormed_empty rfl hquiet hscanner _ 0 List.mem_cons_self
    (Option.some_ne_none 0).symm
  refine not_upToDate_twin (b := [.goesOn])
    (c := [rested 2000] ++ [.look watchIngestor.scanner (.ok twinSnapshot)])
    ([.look watchIngestor.scanner (.error (.noRoot Path.here))] ++ [rested 2000] ++
      [.look watchIngestor.scanner (.ok twinSnapshot)] ++ [.goesOn])
    hfiles hhash ht hu rfl rfl ?_ hupToDate'
  simp only [World.scene, List.append_assoc]

/-! ## After a pass over all files -/

/-- What is in a file that the first look has found, and what was in it then, is the same if the
file has still the same time; so it has been caught if that is what has been read of it before. -/
theorem caught_of_baseline (hs : s.Proper) (hbase : Ends Live (Watcher.baseline g) s base s₁)
    (hlater : Scene.Later s₁ s') (hspells : g.scanner.Spells p)
    (htime : modified? s'.files p = some time) (hknown : base.time? p = some time)
    (hread : lastRead? p s.trace = some (Files.read s'.files p)) : Caught p time s₁ := by
  rcases of_ends_baseline hbase with ⟨e, -, rfl⟩ | hlook
  · cases hknown
  · obtain ⟨-, hhad⟩ := mem_of_time? hlook hs hspells hknown
    refine ⟨hhad, fun _ => ?_⟩
    have hlast : lastRead? p s₁.trace = lastRead? p s.trace :=
      hlook.lastRead?_of_host fun _ hc => nomatch hc
    rw [hlast, hread, (hlater.same hhad htime).2]

/-- **After a pass over all files** a watcher takes over, while files are written as before.
Whenever it has nothing to do, every file is up to date whose time is not the one that it had in the
first look, or that was listed by the pass and has still the bytes that the pass has last read of
it, unless another file has been read whose path has the same text. -/
theorem upToDate_of_processAll {report : IngestReport} (hs : s.Proper)
    (hm : s.memory.WellFormed) (ht : s.trace = [])
    (hall : Ends Live g.processAll s (.ok report) s₁) (hquiet : Quiet g interval first s₁ s₂)
    (hfound : g.scanner.snapshot s₂.files = .ok found) :
    ∃ paths rest, s₁.trace = ⟨.host (.scan g.scanner), Except.ok paths⟩ :: rest ∧
      ∀ p time, (p, time) ∈ found → Path.Apart (pathsRead s₂.trace) p →
        ((first.toOption.getD []).time? p ≠ some time ∨
          p ∈ paths ∧ ∀ b, lastRead? p s₁.trace = some b → b = Files.read s₂.files p) →
        UpToDate g s₂ p := by
  have hstart : g.Accounts s.memory s.trace := ht ▸ Ingestor.accounts_nil hm
  obtain ⟨haccounts, paths, rest, hpaths, hread⟩ := of_ends_processAll hstart hall
  rw [ht, List.nil_append] at hpaths
  obtain ⟨s₃, hbase, hresting⟩ := hquiet.resting
  have hs₁ := Live.proper_of_ends hall hs
  have hs₃ := Live.proper_of_ends hbase hs₁
  refine ⟨paths, rest, hpaths, fun p time hp hone hcase => ?_⟩
  refine hresting.upToDate hs₃ (haccounts.baseline hbase) hfound hp hone ?_
  by_cases hknown : (first.toOption.getD []).time? p = some time
  · refine hcase.imp_right fun ⟨hmem, hsame⟩ => ?_
    obtain ⟨b, hb⟩ := Option.ne_none_iff_exists'.mp (hread p hmem)
    obtain rfl := hsame b hb
    exact caught_of_baseline hs₁ hbase hresting.later ((hresting.proper hs₃).spells hfound hp)
      (Scanner.of_mem_snapshot hfound hp).2 hknown hb
  · exact Or.inl hknown

/-- A watcher that has nothing to do from its first look on. -/
theorem quiet_from_start (interval : Nat) {w : World} (past : List Disk)
    {t : List (Exchange Work.interface)} (hfound : g.scanner.snapshot w.files = .ok known)
    (hknown : ∀ e ∈ known, known.time? e.1 = some e.2) :
    Quiet g interval (.ok known) (w.scene past t) (w.scene past (t ++
      [.look g.scanner (.ok known)] ++ [rested interval] ++ [.look g.scanner (.ok known)])) :=
  quiet_scene interval (live_scene w past t (c := .snapshot g.scanner) hfound)
    (Polls.none known (w.scene past _)) hfound hknown

/-- A pass over the sample world, in which its one file is read as it is. -/
theorem exists_pass_sampleWorld : ∃ t w report,
    Traces watchIngestor.processAll (listed [samplePath] :: t) (.ok report) ∧
      Gives (World.Answers (.steady Ingestor.emptyVectors)) sampleWorld (listed [samplePath] :: t)
        w ∧
      w.files = sampleWorld.files ∧ pathsRead t = [samplePath] ∧
      lastRead? samplePath t = some (Files.read sampleWorld.files samplePath) := by
  obtain ⟨xs, report, w, hpass⟩ := Ingestor.exists_pass
    (Ingestor.exists_embeds_steady Ingestor.emptyVectors) scan_sampleWorld
  obtain ⟨⟨path, t, o⟩, rest, rfl, hpath, hrest⟩ :=
    List.map_eq_cons_iff.mp (Except.ok.inj (hpass.scan_eq.symm.trans scan_sampleWorld))
  obtain rfl := List.map_eq_nil_iff.mp hrest
  obtain rfl : path = samplePath := hpath
  have htrace : watchIngestor.passTrace [⟨samplePath, t, o⟩] = listed [samplePath] :: t := by
    simp [Ingestor.passTrace]
  have hrun : Traces (watchIngestor.processFile samplePath).run t o :=
    hpass.turns _ List.mem_cons_self
  obtain ⟨b, u, rfl, -, hread, hlast, -⟩ := (Ingestor.course_of_traces hrun).lastRead?_eq
  have hgives := hpass.gives
  rw [htrace] at hgives
  refine ⟨_, w, report, htrace ▸ hpass.traces, hgives, hpass.files_eq, hread, ?_⟩
  -- what is read is answered by the sample world, which keeps still while its files are listed
  obtain ⟨_, hscan, hrest⟩ := gives_cons.mp hgives
  obtain ⟨_, -, rfl⟩ := World.ends_host.mp (ends_ask.mpr hscan)
  obtain ⟨_, hasked, -⟩ := gives_cons.mp hrest
  obtain ⟨_, hb, -⟩ := World.ends_host.mp (ends_ask.mpr hasked)
  exact hlast.trans (congrArg some hb)

/-- A file that is there all the time is up to date after the pass, though a watcher that has begun
after it never handles it. -/
theorem upToDate_of_processAll_still : ∃ s₁ s₂ report,
    Ends Live watchIngestor.processAll (sampleWorld.scene [] []) (.ok report) s₁ ∧
      Quiet watchIngestor 2000 (.ok sampleSnapshot) s₁ s₂ ∧
      UpToDate watchIngestor s₂ samplePath := by
  obtain ⟨t, w, report, htraces, hgives, hfiles, hread, hlast⟩ := exists_pass_sampleWorld
  have hall : Ends Live watchIngestor.processAll (sampleWorld.scene [] []) (.ok report) _ :=
    ends_iff_traces.mpr ⟨_, htraces, Live.gives_scene hgives [] []⟩
  have hfound : watchIngestor.scanner.snapshot w.files = .ok sampleSnapshot :=
    hfiles ▸ snapshot_sampleWorld
  have hquiet := quiet_from_start 2000 [] (t := listed [samplePath] :: t)
    hfound time?_sampleSnapshot
  refine ⟨_, _, report, hall, hquiet, ?_⟩
  obtain ⟨paths, rest, hpaths, hupToDate⟩ := upToDate_of_processAll
    (proper_scene plain_sampleWorld) wellFormed_empty rfl hall hquiet hfound
  obtain rfl := Except.ok.inj (eq_of_heq (Exchange.mk.inj (List.cons.inj hpaths).1).2)
  refine hupToDate samplePath 0 List.mem_cons_self ?_ (Or.inr ⟨List.mem_cons_self, fun b hb => ?_⟩)
  · intro q hq _
    rw [World.scene, ← List.singleton_append] at hq
    simp only [pathsRead_append, hread] at hq
    exact List.mem_singleton.mp hq
  · rw [World.scene, List.nil_append, ← List.singleton_append, lastRead?_append, hlast] at hb
    rw [World.scene, hfiles]
    exact (Option.some.inj hb).symm

/-- A file that appears between a pass and the first look is not read. -/
theorem exists_unnoticed : ∃ s₁ s₂,
    Ends Live watchIngestor.processAll (emptyWorld.scene [] []) (.ok {}) s₁ ∧
      Quiet watchIngestor 2000 (.ok sampleSnapshot) s₁ s₂ ∧
      watchIngestor.scanner.snapshot s₂.files = .ok sampleSnapshot ∧
      pathsRead s₂.trace = [] ∧ ¬ UpToDate watchIngestor s₂ samplePath := by
  have hall : Ends Live watchIngestor.processAll (emptyWorld.scene [] []) (.ok {}) _ :=
    ends_bind.mpr ⟨.ok [], _, ends_ask.mpr (live_nothing (.scan watchIngestor.scanner)
      (Except.ok []) fun found hfound e he => by cases hfound; cases he),
      ends_bind.mpr ⟨{}, _, ends_done.mpr ⟨rfl, rfl⟩, ends_done.mpr ⟨rfl, rfl⟩⟩⟩
  -- the file appears before the first look
  have hfirst := live_appeared [listed []] (.snapshot watchIngestor.scanner)
    (Except.ok sampleSnapshot) snapshot_sampleWorld
  have hquiet := quiet_scene 2000 hfirst
    (Polls.none sampleSnapshot (sampleWorld.scene [emptyWorld.files] _)) snapshot_sampleWorld
    time?_sampleSnapshot
  refine ⟨_, _, hall, hquiet, snapshot_sampleWorld, rfl, ?_⟩
  rintro ⟨bytes, -, hhash | ⟨u, v, w, e, hsplit, -, hread, -⟩⟩
  · cases hhash
  · -- the file has never been read
    have hmem : .read samplePath (.ok bytes) ∈ u ++ v ++ w :=
      List.mem_append_left w (List.mem_append_right u hread)
    rw [← hsplit] at hmem
    rcases hmem with _ | ⟨_, _ | ⟨_, _ | ⟨_, _ | ⟨_, hmem⟩⟩⟩⟩
    cases hmem

/-- A file that is there all the time loses its hash to another one whose path has the same text. -/
theorem exists_overwritten : ∃ s₁ s₂ report,
    Ends Live watchIngestor.processAll (Ingestor.twinWorld.scene [] []) (.ok report) s₁ ∧
      Quiet watchIngestor 2000 (.ok twinSnapshot) s₁ s₂ ∧
      s₂.files = Ingestor.twinWorld.files ∧
      ¬ UpToDate watchIngestor s₂ (Ingestor.twinPath 254) := by
  obtain ⟨t, u, w₁, w, report, ht, hu, hall, hgives₁, hgives₂, hfiles, hhash⟩ := exists_twin_runs
  have hscanner : watchIngestor.scanner.snapshot w.files = .ok twinSnapshot :=
    hfiles ▸ snapshot_twinWorld
  have hgives : Gives (World.Answers (.steady Ingestor.emptyVectors)) Ingestor.twinWorld
      (listed [Ingestor.twinPath 254, Ingestor.twinPath 255] :: (t ++ u)) w :=
    gives_cons.mpr ⟨Ingestor.twinWorld,
      ends_ask.mp (World.ends_host.mpr ⟨0, Ingestor.scan_twinWorld.symm, rfl⟩),
      gives_append.mpr ⟨w₁, hgives₁, hgives₂⟩⟩
  have hquiet := quiet_from_start 2000 []
    (t := listed [Ingestor.twinPath 254, Ingestor.twinPath 255] :: (t ++ u)) hscanner
    time?_twinSnapshot
  refine ⟨_, _, report, ends_iff_traces.mpr ⟨_, hall, Live.gives_scene hgives [] []⟩, hquiet,
    hfiles, ?_⟩
  refine not_upToDate_twin (b := []) (c := [.look watchIngestor.scanner (.ok twinSnapshot)] ++
      [rested 2000] ++ [.look watchIngestor.scanner (.ok twinSnapshot)])
    [listed [Ingestor.twinPath 254, Ingestor.twinPath 255]] hfiles hhash ht hu rfl rfl ?_
  simp [World.scene]

/-- **Nobody takes notice of an edit between the pass and the first look:** here the file has not
been there in the pass, and is no news for the watcher. Nor is every file up to date that the pass
has listed and that keeps still, if there is another one whose path has the same text. -/
theorem not_upToDate_of_processAll :
    (¬ ∀ (g : Ingestor) (interval : Nat) (first : Except ScanError Snapshot) (s s₁ s₂ : Scene)
      (report : IngestReport) (found : Snapshot), s.Proper → s.memory.WellFormed → s.trace = [] →
      Ends Live g.processAll s (.ok report) s₁ → Quiet g interval first s₁ s₂ →
      g.scanner.snapshot s₂.files = .ok found →
      ∀ p time, (p, time) ∈ found → Path.Apart (pathsRead s₂.trace) p → UpToDate g s₂ p) ∧
    ¬ ∀ (g : Ingestor) (interval : Nat) (first : Except ScanError Snapshot) (s s₁ s₂ : Scene)
      (report : IngestReport) (found : Snapshot), s.Proper → s.memory.WellFormed → s.trace = [] →
      Ends Live g.processAll s (.ok report) s₁ → Quiet g interval first s₁ s₂ →
      g.scanner.snapshot s₂.files = .ok found → s.files = s₂.files →
      ∀ p time, (p, time) ∈ found → UpToDate g s₂ p := by
  constructor
  · intro hupToDate
    obtain ⟨s₁, s₂, hall, hquiet, hfound, hread, hnot⟩ := exists_unnoticed
    refine hnot (hupToDate watchIngestor 2000 _ _ s₁ s₂ {} sampleSnapshot
      (proper_scene plain_emptyWorld) wellFormed_empty rfl hall hquiet hfound samplePath 0
      List.mem_cons_self ?_)
    rw [hread]
    exact fun q hq => absurd hq List.not_mem_nil
  · intro hupToDate
    obtain ⟨s₁, s₂, report, hall, hquiet, hfiles, hnot⟩ := exists_overwritten
    exact hnot (hupToDate watchIngestor 2000 _ _ s₁ s₂ report twinSnapshot
      (proper_scene plain_twinWorld) wellFormed_empty rfl hall hquiet (hfiles ▸ snapshot_twinWorld)
      hfiles.symm _ 0 List.mem_cons_self)

end MarkdownIndex
