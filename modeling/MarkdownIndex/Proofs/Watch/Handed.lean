import MarkdownIndex.Proofs.Ingest.Retry
import MarkdownIndex.Proofs.Watch.Edits

/-!
# Handing over: what a watcher hands to ingestion, and what it takes no notice of

A watcher remembers what it has seen, and not what has become of it. So a file that ingestion has
failed on is not handed over again before it has got another time.

* `Handing`, `Round` — a file that is handed over, with its run; a round of a watcher, with what it
  has seen and all that it hands over.
* `seen` — what the last round has seen that could list the files.
* `Round.Follows`, `Rounds` — a round hands over what has changed since then, whatever came of what
  was handed over before.
* `traces_watch_iff` — the traces of a watcher that is not told to stop are those of rounds.
* `FailedHalfway`, `Pending` — a run that has failed and has had its hash cleared; a file whose last
  run was one.
* `handed_iff` — **a file is handed over if and only if its time has changed,** also if it is
  pending; `not_always_handed_again` — so not every pending file is.
-/

namespace MarkdownIndex

open Files Ingestor Memory Program

/-- The program is told to stop. -/
def Exchange.Stops : Exchange Work.interface → Prop
  | ⟨.host .stopping, told⟩ => told = true
  | ⟨.host (.rest _), told⟩ => told = true
  | _ => False

/-- Nobody tells a program in a scene to stop. -/
theorem Scene.Sees.not_stops {s : Scene} {x : Exchange Work.interface}
    (hx : s.Sees x.call x.reply) : ¬ x.Stops := by
  obtain ⟨c, r⟩ := x
  rcases c with c | _ | _
  · cases c with
    | rest | stopping =>
      obtain ⟨now, rfl⟩ := hx
      exact Bool.false_ne_true
    | _ => exact not_false
  · exact not_false
  · exact not_false

theorem not_stops_of_gives {s s' : Scene} {t : List (Exchange Work.interface)}
    (h : Gives Live s t s') : ∀ x ∈ t, ¬ x.Stops := by
  induction h with
  | nil => exact fun _ hx => absurd hx List.not_mem_nil
  | cons h _ ih => exact List.forall_mem_cons.mpr ⟨Scene.Sees.not_stops h.sees, ih⟩

namespace Watcher

/-! ## Rounds -/

/-- A file that is handed to ingestion. -/
structure Handing where
  /-- the file and what happened to it -/
  change : Snapshot.Change
  /-- what ingestion has asked -/
  trace : List (Exchange Work.interface)
  /-- how it has ended -/
  outcome : Except IngestError FileOutcome

/-- What is asked for a file: whether to stop, and then what ingestion asks. -/
def Handing.exchanges (x : Handing) : List (Exchange Work.interface) :=
  .goesOn :: x.trace

/-- What is told of a file. -/
def Handing.event (x : Handing) : WatchEvent := ⟨x.change, x.outcome.toOption⟩

/-- A round of a watcher. -/
structure Round where
  /-- the files that it has seen, if they could be listed -/
  look : Except ScanError Snapshot
  /-- what it hands over -/
  handings : List Handing

/-- What is asked in a round. -/
def Round.trace (g : Ingestor) (interval : Nat) (r : Round) : List (Exchange Work.interface) :=
  ⟨.host (.rest interval), false⟩ :: ⟨.host (.snapshot g.scanner), r.look⟩ ::
    r.handings.flatMap Handing.exchanges

/-- What is told of a round. -/
def Round.events (r : Round) : List WatchEvent := r.handings.map Handing.event

/-- The files that a watcher knows after a round. -/
def Round.seen (known : Snapshot) (r : Round) : Snapshot := r.look.toOption.getD known

/-- The files that a watcher knows after some rounds: those of the last round that could list them.
-/
def seen (known : Snapshot) (rs : List Round) : Snapshot := rs.foldl Round.seen known

/-- A round hands over what has changed since the files that are known. -/
structure Round.Follows (g : Ingestor) (known : Snapshot) (r : Round) : Prop where
  /-- these are the files that have changed, in their order, if the files could be listed -/
  changes_eq : r.handings.map Handing.change =
    match r.look with
    | .error _ => []
    | .ok current => known.changes current
  /-- they are handed to ingestion -/
  runs : ∀ x ∈ r.handings, Traces (g.processFile x.change.path).run x.trace x.outcome

/-- Rounds one after the other. -/
def Rounds (g : Ingestor) : Snapshot → List Round → Prop
  | _, [] => True
  | known, r :: rs => r.Follows g known ∧ Rounds g (r.seen known) rs

/-- What a watcher asks: its first look, and its rounds. -/
def watched (g : Ingestor) (interval : Nat) (first : Except ScanError Snapshot) (rs : List Round) :
    List (Exchange Work.interface) :=
  ⟨.host (.snapshot g.scanner), first⟩ :: rs.flatMap (Round.trace g interval)

section Rounds

variable {g : Ingestor} {interval n : Nat} {known : Snapshot} {cs : List Snapshot.Change}
variable {t : List (Exchange Work.interface)} {es : List WatchEvent} {us vs rs : List Round}
variable {r : Round} {p : Path} {current : Snapshot}

/-- Every round follows what the rounds before it have seen. -/
theorem Rounds.follows (h : Rounds g known (us ++ r :: vs)) : r.Follows g (seen known us) := by
  induction us generalizing known with
  | nil => exact h.1
  | cons u us ih => exact ih h.2

/-- A file that has changed is listed, with a time that is not the one that is known. -/
theorem of_mem_changes {c : Snapshot.Change} (h : c ∈ known.changes current) :
    ∃ time, (c.path, time) ∈ current ∧ known.time? c.path ≠ some time := by
  rw [Snapshot.changes, List.mem_mergeSort] at h
  obtain ⟨⟨q, time⟩, hq, hc⟩ := List.mem_filterMap.mp h
  simp only [Snapshot.change?] at hc
  split at hc
  · rename_i hnone
    obtain rfl := Option.some.inj hc
    exact ⟨time, hq, by simp [hnone]⟩
  · rename_i before hsome
    split at hc
    · cases hc
    · rename_i hne
      obtain rfl := Option.some.inj hc
      exact ⟨time, hq, by simpa [hsome] using hne⟩

/-- A round that can list the files hands over those whose time is not the one that is known. -/
theorem Round.Follows.exists_handing_iff (h : r.Follows g known) (hlook : r.look = .ok current) :
    (∃ x ∈ r.handings, x.change.path = p) ↔
      ∃ time, (p, time) ∈ current ∧ known.time? p ≠ some time := by
  have hchanges : r.handings.map Handing.change = known.changes current := by
    rw [h.changes_eq, hlook]
  have hmem : (∃ x ∈ r.handings, x.change.path = p) ↔ ∃ c ∈ known.changes current, c.path = p := by
    rw [← hchanges]
    simp
  rw [hmem]
  constructor
  · rintro ⟨c, hc, rfl⟩
    exact of_mem_changes hc
  · rintro ⟨time, hp, hne⟩
    exact exists_mem_changes hp hne

/-! ## Traces of a watcher -/

/-- Files are handed over one after the other, each with a run of its own. -/
theorem traces_handleAll_iff (ht : ∀ x ∈ t, ¬ x.Stops) :
    Traces (handleAll g cs) t es ↔ ∃ xs : List Handing, xs.map Handing.change = cs ∧
      (∀ x ∈ xs, Traces (g.processFile x.change.path).run x.trace x.outcome) ∧
        t = xs.flatMap Handing.exchanges ∧ es = xs.map Handing.event := by
  -- the induction is on the files, the first of which is handed over first
  induction cs generalizing t es with
  | nil =>
    constructor
    · intro h
      obtain ⟨rfl, rfl⟩ := traces_done.mp h
      exact ⟨[], rfl, fun _ hx => absurd hx List.not_mem_nil, rfl, rfl⟩
    · rintro ⟨xs, hxs, -, rfl, rfl⟩
      obtain rfl := List.map_eq_nil_iff.mp hxs
      exact traces_done.mpr ⟨rfl, rfl⟩
  | cons c cs ih =>
    constructor
    · intro h
      obtain ⟨told, u, v, rfl, hu, hv⟩ := traces_bind.mp h
      obtain rfl := traces_ask.mp hu
      obtain rfl : told = false := Bool.eq_false_iff.mpr (ht _ List.mem_cons_self)
      obtain ⟨e, v₁, v₂, rfl, hhandle, hrest⟩ := traces_bind.mp hv
      obtain ⟨o, hrun, rfl⟩ := traces_bind_pure.mp hhandle
      obtain ⟨es', hall, rfl⟩ := traces_bind_pure.mp hrest
      have hgoing : ∀ x ∈ v₂, ¬ x.Stops := fun x hx => ht x (by simp [hx])
      obtain ⟨xs, rfl, hruns, rfl, rfl⟩ := (ih hgoing).mp hall
      exact ⟨⟨c, v₁, o⟩ :: xs, rfl, List.forall_mem_cons.mpr ⟨hrun, hruns⟩, rfl, rfl⟩
    · rintro ⟨_ | ⟨x, xs⟩, hxs, hruns, rfl, rfl⟩
      · cases hxs
      · obtain ⟨rfl, rfl⟩ := List.cons.inj hxs
        obtain ⟨hrun, hruns⟩ := List.forall_mem_cons.mp hruns
        have hgoing : ∀ y ∈ xs.flatMap Handing.exchanges, ¬ y.Stops := fun y hy =>
          ht y (by rw [List.flatMap_cons]; exact List.mem_append_right _ hy)
        have hall := (ih hgoing).mpr ⟨xs, rfl, hruns, rfl, rfl⟩
        refine traces_bind.mpr ⟨false, [⟨.host .stopping, false⟩],
          x.trace ++ xs.flatMap Handing.exchanges, rfl, traces_ask.mpr rfl, ?_⟩
        refine traces_bind.mpr ⟨x.event, x.trace, _, rfl, ?_, ?_⟩
        · exact traces_bind_pure.mpr ⟨x.outcome, hrun, rfl⟩
        · exact traces_bind_pure.mpr ⟨_, hall, rfl⟩

/-- A poll is a look and what follows from it. -/
theorem traces_poll_iff {known' : Snapshot} (ht : ∀ x ∈ t, ¬ x.Stops) :
    Traces (poll g known) t (known', es) ↔ ∃ r : Round, r.Follows g known ∧
      t = ⟨.host (.snapshot g.scanner), r.look⟩ :: r.handings.flatMap Handing.exchanges ∧
        known' = r.seen known ∧ es = r.events := by
  constructor
  · intro h
    obtain ⟨look, u, v, rfl, hu, hv⟩ := traces_bind.mp h
    obtain rfl := traces_ask.mp hu
    cases look with
    | error e =>
      obtain ⟨heq, rfl⟩ := traces_done.mp hv
      obtain ⟨rfl, rfl⟩ := Prod.mk.inj heq
      exact ⟨⟨.error e, []⟩, ⟨rfl, fun _ hx => absurd hx List.not_mem_nil⟩, rfl, rfl, rfl⟩
    | ok current =>
      obtain ⟨es', hall, heq⟩ := traces_bind_pure.mp hv
      obtain ⟨rfl, rfl⟩ := Prod.mk.inj heq
      have hgoing : ∀ x ∈ v, ¬ x.Stops := fun x hx => ht x (by simp [hx])
      obtain ⟨xs, hxs, hruns, rfl, rfl⟩ := (traces_handleAll_iff hgoing).mp hall
      exact ⟨⟨.ok known', xs⟩, ⟨hxs, hruns⟩, rfl, rfl, rfl⟩
  · rintro ⟨⟨look, xs⟩, ⟨hchanges, hruns⟩, rfl, rfl, rfl⟩
    refine traces_bind.mpr ⟨look, [⟨.host (.snapshot g.scanner), look⟩], _, rfl,
      traces_ask.mpr rfl, ?_⟩
    cases look with
    | error e =>
      obtain rfl := List.map_eq_nil_iff.mp hchanges
      exact traces_done.mpr ⟨rfl, rfl⟩
    | ok current =>
      have hgoing : ∀ y ∈ xs.flatMap Handing.exchanges, ¬ y.Stops := fun y hy =>
        ht y (List.mem_cons_of_mem _ hy)
      have hall := (traces_handleAll_iff hgoing).mpr ⟨xs, hchanges, hruns, rfl, rfl⟩
      exact traces_bind_pure.mpr ⟨_, hall, rfl⟩

/-- **A watcher that is not told to stop does rounds.** -/
theorem traces_looks_iff (ht : ∀ x ∈ t, ¬ x.Stops) :
    Traces (looks g interval n known) t es ↔ ∃ rs : List Round, rs.length = n ∧
      Rounds g known rs ∧ t = rs.flatMap (Round.trace g interval) ∧
        es = rs.flatMap Round.events := by
  induction n generalizing known t es with
  | zero =>
    constructor
    · intro h
      obtain ⟨rfl, rfl⟩ := traces_done.mp h
      exact ⟨[], rfl, trivial, rfl, rfl⟩
    · rintro ⟨rs, hrs, -, rfl, rfl⟩
      obtain rfl := List.length_eq_zero_iff.mp hrs
      exact traces_done.mpr ⟨rfl, rfl⟩
  | succ n ih =>
    constructor
    · intro h
      obtain ⟨told, u, v, rfl, hu, hv⟩ := traces_bind.mp h
      obtain rfl := traces_ask.mp hu
      obtain rfl : told = false := Bool.eq_false_iff.mpr (ht _ List.mem_cons_self)
      obtain ⟨⟨known', es₁⟩, v₁, v₂, rfl, hpoll, hrest⟩ := traces_bind.mp hv
      obtain ⟨es₂, hlooks, rfl⟩ := traces_bind_pure.mp hrest
      have hgoing₁ : ∀ x ∈ v₁, ¬ x.Stops := fun x hx => ht x (by simp [hx])
      have hgoing₂ : ∀ x ∈ v₂, ¬ x.Stops := fun x hx => ht x (by simp [hx])
      obtain ⟨r, hr, rfl, rfl, rfl⟩ := (traces_poll_iff hgoing₁).mp hpoll
      obtain ⟨rs, rfl, hrs, rfl, rfl⟩ := (ih hgoing₂).mp hlooks
      exact ⟨r :: rs, rfl, ⟨hr, hrs⟩, rfl, rfl⟩
    · rintro ⟨_ | ⟨r, rs⟩, hlength, hrs, rfl, rfl⟩
      · cases hlength
      · obtain ⟨hr, hrs⟩ := hrs
        have hgoing₁ : ∀ x ∈ (⟨.host (.snapshot g.scanner), r.look⟩ : Exchange Work.interface) ::
            r.handings.flatMap Handing.exchanges, ¬ x.Stops := fun x hx =>
          ht x (List.mem_append_left _ (List.mem_cons_of_mem _ hx))
        have hgoing₂ : ∀ x ∈ rs.flatMap (Round.trace g interval), ¬ x.Stops := fun x hx =>
          ht x (List.mem_append_right _ hx)
        have hpoll := (traces_poll_iff hgoing₁).mpr ⟨r, hr, rfl, rfl, rfl⟩
        have hlooks := (ih hgoing₂).mpr ⟨rs, Nat.succ.inj hlength, hrs, rfl, rfl⟩
        refine traces_bind.mpr ⟨false, [⟨.host (.rest interval), false⟩], _, rfl,
          traces_ask.mpr rfl, ?_⟩
        refine traces_bind.mpr ⟨(r.seen known, r.events), _, _, rfl, hpoll, ?_⟩
        exact traces_bind_pure.mpr ⟨_, hlooks, rfl⟩

/-- **Watching is a first look and some rounds.** -/
theorem traces_watch_iff (ht : ∀ x ∈ t, ¬ x.Stops) :
    Traces (watch g interval n) t es ↔ ∃ (first : Except ScanError Snapshot) (rs : List Round),
      rs.length = n ∧ Rounds g (first.toOption.getD []) rs ∧ t = watched g interval first rs ∧
        es = rs.flatMap Round.events := by
  constructor
  · intro h
    obtain ⟨base, u, v, rfl, hbase, hlooks⟩ := traces_bind.mp h
    obtain ⟨first, hfirst, rfl⟩ := traces_bind_pure.mp hbase
    obtain rfl := traces_ask.mp hfirst
    have hgoing : ∀ x ∈ v, ¬ x.Stops := fun x hx => ht x (List.mem_append_right _ hx)
    obtain ⟨rs, hlength, hrs, rfl, rfl⟩ := (traces_looks_iff hgoing).mp hlooks
    exact ⟨first, rs, hlength, hrs, rfl, rfl⟩
  · rintro ⟨first, rs, hlength, hrs, rfl, rfl⟩
    have hgoing : ∀ x ∈ rs.flatMap (Round.trace g interval), ¬ x.Stops := fun x hx =>
      ht x (List.mem_cons_of_mem _ hx)
    have hlooks := (traces_looks_iff hgoing).mpr ⟨rs, hlength, hrs, rfl, rfl⟩
    refine traces_bind.mpr ⟨first.toOption.getD [], [⟨.host (.snapshot g.scanner), first⟩], _, rfl,
      ?_, hlooks⟩
    exact traces_bind_pure.mpr ⟨first, traces_ask.mpr rfl, rfl⟩

/-! ## What is handed over again -/

/-- A run has failed after its document has been written, and the hash has been cleared. -/
structure Handing.FailedHalfway (x : Handing) : Prop where
  /-- it has failed -/
  failed : ∃ e, x.outcome = .error e
  /-- its document has been written -/
  writes : ∃ y ∈ x.trace, y.Writes
  /-- its hash has been cleared -/
  cleared : ∃ id, .stored (.clearDocumentHash id) (.ok ()) ∈ x.trace

/-- The last run on a file has failed half-way. -/
def Pending (rs : List Round) (p : Path) : Prop :=
  ∃ x, ((rs.flatMap Round.handings).filter (·.change.path = p)).getLast? = some x ∧
    x.FailedHalfway

/-- What a watcher hands over: in every round that can list the files, those whose time is not the
one that was seen last. -/
def HandsOver (g : Ingestor) (interval n : Nat) (t : List (Exchange Work.interface))
    (es : List WatchEvent) : Prop :=
  ∃ (first : Except ScanError Snapshot) (rs : List Round),
    rs.length = n ∧ t = watched g interval first rs ∧ es = rs.flatMap Round.events ∧
      ∀ us r vs current p, rs = us ++ r :: vs → r.look = .ok current →
        ((∃ x ∈ r.handings, x.change.path = p ∧
            Traces (g.processFile p).run x.trace x.outcome) ↔
          ∃ time, (p, time) ∈ current ∧ (seen (first.toOption.getD []) us).time? p ≠ some time)

/-- **A file is handed over if and only if its time is not the one that was seen last,** whatever
has come of it before: also a file whose last run has failed half-way is taken up again if it has
another time, and is not if it has still the same. -/
theorem handed_iff (h : Traces (watch g interval n) t es) (ht : ∀ x ∈ t, ¬ x.Stops) :
    HandsOver g interval n t es := by
  obtain ⟨first, rs, hlength, hrs, rfl, rfl⟩ := (traces_watch_iff ht).mp h
  refine ⟨first, rs, hlength, rfl, rfl, ?_⟩
  rintro us r vs current p rfl hlook
  have hfollows := hrs.follows
  rw [← hfollows.exists_handing_iff hlook]
  constructor
  · rintro ⟨x, hx, hpath, -⟩
    exact ⟨x, hx, hpath⟩
  · rintro ⟨x, hx, rfl⟩
    exact ⟨x, hx, rfl, hfollows.runs x hx⟩

end Rounds

/-! ## A file that is forgotten -/

/-- The document of the file of the sample world, as a watcher finds it. -/
def foundDocument : NewDocument :=
  documentOf samplePath (String.ofList ['#', ' ', 'A']) (Sha256.hexDigest [35, 32, 65]) 3 (some 0) 0

/-- What is asked of the file when nothing can be embedded. -/
def brokenTrace : List (Exchange Work.interface) :=
  opening samplePath [35, 32, 65] none (some 0) 0 ++
    [.stored (.upsertDocument foundDocument) (.ok (1 : Int)),
      .stored (.deleteChunks 1) (.ok (0 : Nat)), ⟨.embed ["# A"], Except.error .disabled⟩,
      .stored (.clearDocumentHash 1) (.ok ())]

/-- The file is handed over, and its run fails half-way. -/
def brokenHanding : Handing :=
  ⟨⟨samplePath, .created⟩, brokenTrace, .error (.embedding 0 .disabled)⟩

theorem traces_brokenTrace :
    Traces (watchIngestor.processFile samplePath).run brokenTrace
      (.error (.embedding 0 .disabled)) := by
  refine traces_processFile (Option.some_ne_none _).symm decode?_sampleWorld chunks_sampleWorld
    (List.cons_ne_nil _ _) ?_
  refine traces_run_bind.mpr
    (Or.inl ⟨(1 : Int), [_], _, rfl, traces_stored.mpr ⟨.ok (1 : Int), rfl, rfl⟩, ?_⟩)
  refine traces_run_tryCatch.mpr (Or.inr ⟨.embedding 0 .disabled, [_, _], _, rfl, ?_, ?_⟩)
  · refine traces_run_bind.mpr (Or.inr ⟨.embedding 0 .disabled, ?_, rfl⟩)
    refine traces_run_bind.mpr
      (Or.inl ⟨(0 : Nat), [_], _, rfl, traces_stored.mpr ⟨.ok (0 : Nat), rfl, rfl⟩, ?_⟩)
    rw [batches, List.take_nil, List.drop_nil, batches]
    refine traces_run_bind.mpr (Or.inl ⟨(), [], _, rfl, traces_run_pure.mpr ⟨rfl, rfl⟩, ?_⟩)
    refine traces_run_bind.mpr (Or.inr ⟨.embedding 0 .disabled, ?_, rfl⟩)
    refine traces_run_bind.mpr (Or.inr ⟨.embedding 0 .disabled, ?_, rfl⟩)
    exact traces_run_orFail.mpr ⟨.error .disabled, traces_ask.mpr rfl, rfl⟩
  · refine traces_run_bind.mpr
      (Or.inl ⟨.ok (), [_], [], rfl, ?_, traces_run_throw.mpr ⟨rfl, rfl⟩⟩)
    exact traces_run_lift.mpr ⟨.ok (), traces_ask.mpr rfl, rfl⟩

/-- The file appears and is handed over, and its run fails; then nothing happens. -/
def forgetfulRounds : List Round :=
  [⟨.ok sampleSnapshot, [brokenHanding]⟩, ⟨.ok sampleSnapshot, []⟩]

theorem rounds_forgetfulRounds : Rounds watchIngestor [] forgetfulRounds := by
  refine ⟨⟨changes_nil_sampleSnapshot.symm, ?_⟩,
    ⟨(changes_eq_nil time?_sampleSnapshot).symm, ?_⟩, trivial⟩
  · exact fun x hx => List.mem_singleton.mp hx ▸ traces_brokenTrace
  · exact fun _ hx => absurd hx List.not_mem_nil

/-- A look that finds the file. -/
abbrev foundLook : Exchange Work.interface := .look watchIngestor.scanner (.ok sampleSnapshot)

/-- What is asked once the file is there. -/
def forgetfulTrace : List (Exchange Work.interface) :=
  foundLook :: (brokenHanding.exchanges ++ [rested 2000, foundLook])

theorem watched_forgetfulRounds :
    watched watchIngestor 2000 (.ok []) forgetfulRounds =
      .look watchIngestor.scanner (.ok []) :: rested 2000 :: forgetfulTrace := by
  simp [watched, forgetfulRounds, Round.trace, forgetfulTrace]

/-- The store after that: the document is there, with neither chunks nor a hash. -/
def forgottenMemory : Memory :=
  ((({} : Memory).upsert foundDocument 0).2.deleteChunks 1).2.clearHash 1

example : forgottenMemory.chunks = [] ∧ forgottenMemory.hash? "./a.md" = none := by decide +kernel

/-- The sample world gives these answers when nothing can be embedded. -/
theorem gives_forgetfulTrace :
    Gives (World.Answers (.steady fun _ => .error .disabled)) sampleWorld forgetfulTrace
      ⟨sampleWorld.files, forgottenMemory⟩ := by
  have hhost {m : Memory} {c : Host.Call} {r : Host.Reply c}
      (hr : r = Host.answer sampleWorld.files 0 c) :
      World.Answers (.steady fun _ => .error .disabled) ⟨sampleWorld.files, m⟩ (.host c) r
        ⟨sampleWorld.files, m⟩ :=
    ends_ask.mp ((World.ends_host (w := ⟨sampleWorld.files, m⟩)).mpr ⟨0, hr, rfl⟩)
  have hread : Files.read sampleWorld.files samplePath = .ok [35, 32, 65] := by decide +kernel
  refine .cons (hhost snapshot_sampleWorld.symm) (.cons (hhost rfl) (.cons (hhost hread.symm) ?_))
  refine .cons (.store _ 0 _) (.cons (hhost modified?_sampleWorld.symm) (.cons (hhost rfl) ?_))
  refine .cons (.store _ 0 _) (.cons (.store _ 0 _) (.cons (.embedded _ _ _ rfl) ?_))
  refine .cons (.store _ 0 _) (.cons (hhost rfl) (.cons (hhost snapshot_sampleWorld.symm) ?_))
  exact .nil _

/-- All of it can happen to a watcher of a directory in which a file appears. -/
theorem gives_forgetfulRounds : ∃ s,
    Gives Live (emptyWorld.scene [] []) (watched watchIngestor 2000 (.ok []) forgetfulRounds) s := by
  have hlook := live_nothing (.snapshot watchIngestor.scanner) (Except.ok [])
    fun found hfound e he => by cases hfound; cases he
  have hrest := live_appeared [.look watchIngestor.scanner (.ok [])] (.rest 2000) false rfl
  rw [watched_forgetfulRounds]
  exact ⟨_, .cons hlook (.cons hrest (Live.gives_scene gives_forgetfulTrace _ _))⟩

theorem traces_forgetfulRounds :
    Traces (watch watchIngestor 2000 2) (watched watchIngestor 2000 (.ok []) forgetfulRounds)
      (forgetfulRounds.flatMap Round.events) := by
  obtain ⟨s, hgives⟩ := gives_forgetfulRounds
  exact (traces_watch_iff (not_stops_of_gives hgives)).mpr
    ⟨.ok [], forgetfulRounds, rfl, rounds_forgetfulRounds, rfl, rfl⟩

theorem pending_forgetfulRounds : Pending [⟨.ok sampleSnapshot, [brokenHanding]⟩] samplePath := by
  refine ⟨brokenHanding, by simp [brokenHanding], ⟨_, rfl⟩, ?_, 1, ?_⟩
  · exact ⟨.stored (.upsertDocument foundDocument) (.ok (1 : Int)),
      by simp [brokenHanding, brokenTrace], trivial⟩
  · simp [brokenHanding, brokenTrace]

/-- The file is handed over when it has appeared, and not again after its run has failed. -/
theorem handed_iff_forgetfulRounds :
    HandsOver watchIngestor 2000 2 (watched watchIngestor 2000 (.ok []) forgetfulRounds)
        (forgetfulRounds.flatMap Round.events) ∧
      forgetfulRounds.flatMap Round.events = [⟨⟨samplePath, .created⟩, none⟩] := by
  obtain ⟨s, hgives⟩ := gives_forgetfulRounds
  exact ⟨handed_iff traces_forgetfulRounds (not_stops_of_gives hgives), rfl⟩

/-- **Not every pending file is handed over again** by the next round that lists it: here nothing
could be embedded, and the file has still the same time. -/
theorem not_always_handed_again :
    ¬ ∀ (g : Ingestor) (interval : Nat) (s s' : Scene) (first : Except ScanError Snapshot)
      (rs : List Round) (es : List WatchEvent), s.Proper → s.memory.WellFormed →
      Traces (watch g interval rs.length) (watched g interval first rs) es →
      Gives Live s (watched g interval first rs) s' →
      ∀ us r vs current p, rs = us ++ r :: vs → Pending us p → r.look = .ok current →
        (∃ time, (p, time) ∈ current) → ∃ x ∈ r.handings, x.change.path = p := by
  intro hhanded
  obtain ⟨s, hgives⟩ := gives_forgetfulRounds
  obtain ⟨x, hx, -⟩ := hhanded watchIngestor 2000 _ s (.ok []) forgetfulRounds _
    (proper_scene plain_emptyWorld) wellFormed_empty traces_forgetfulRounds hgives
    [⟨.ok sampleSnapshot, [brokenHanding]⟩] ⟨.ok sampleSnapshot, []⟩ [] sampleSnapshot samplePath
    rfl pending_forgetfulRounds rfl ⟨0, List.mem_cons_self⟩
  exact List.not_mem_nil hx

end Watcher

end MarkdownIndex
