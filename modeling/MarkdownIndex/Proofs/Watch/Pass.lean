import MarkdownIndex.Proofs.Watch.Account

/-!
# Passes: all files, and the files that have changed

A pass over files is a row of runs, with other requests in between that read nothing. So whatever is
read is accounted for after a pass, and a file that has been in it has been caught.

* `Polls` — a watcher at work: some polls, from one snapshot to another; `ends_watch_iff` — that is
  what watching comes to.
* `Accounts.polls`, `Accounts.processAll` and so on — passes account for what they read.
* `caught_of_handleAll`, `lastRead?_of_processAll` — the files of a pass are read.
* `KeepsUp` — what a watcher knows and has not been told at the start has been caught; it stays like
  that from poll to poll.
-/

namespace MarkdownIndex

open Relation Files Memory Program Watcher

variable {g : Ingestor} {s s' : Scene} {base known known' : Snapshot} {interval n : Nat}
variable {p : Path} {time : Int}

/-! ## What passes come to -/

/-- The files are looked at. -/
abbrev Exchange.look (sc : Scanner) (r : Except ScanError Snapshot) : Exchange Work.interface :=
  ⟨.host (.snapshot sc), r⟩

/-- A watcher asks whether to stop, and is not told to; then a file is handed over. -/
abbrev Exchange.goesOn : Exchange Work.interface := ⟨.host .stopping, false⟩

/-- A pass over changed files handles the first one, and then the others. -/
theorem of_ends_handleAll_cons {c : Snapshot.Change} {cs : List Snapshot.Change}
    {events : List WatchEvent} (h : Ends Live (handleAll g (c :: cs)) s events s') :
    ∃ s₁ o s₂ rest, Live s (.host .stopping) false s₁ ∧
      Ends Live (g.processFile c.path).run s₁ o s₂ ∧ Ends Live (handleAll g cs) s₂ rest s' := by
  obtain ⟨stop, s₁, hstop, h⟩ := ends_bind.mp h
  have hlive := ends_ask.mp hstop
  obtain ⟨now, rfl⟩ := hlive.sees
  obtain ⟨e, s₂, he, h⟩ := ends_bind.mp h
  obtain ⟨o, s₃, ho, he⟩ := ends_bind.mp he
  obtain ⟨-, rfl⟩ := ends_done.mp he
  obtain ⟨rest, s₄, hrest, h⟩ := ends_bind.mp h
  obtain ⟨-, rfl⟩ := ends_done.mp h
  exact ⟨s₁, o, s₂, rest, hlive, ho, hrest⟩

theorem ends_handleAll_cons {c : Snapshot.Change} {cs : List Snapshot.Change} {s₁ s₂ : Scene}
    {o : Except IngestError FileOutcome} {rest : List WatchEvent}
    (hstop : Live s (.host .stopping) false s₁) (hfile : Ends Live (g.processFile c.path).run s₁ o s₂)
    (hrest : Ends Live (handleAll g cs) s₂ rest s') :
    Ends Live (handleAll g (c :: cs)) s (⟨c, o.toOption⟩ :: rest) s' := by
  refine ends_bind.mpr ⟨false, s₁, ends_ask.mpr hstop, ?_⟩
  refine ends_bind.mpr ⟨⟨c, o.toOption⟩, s₂, ?_, ?_⟩
  · exact ends_bind.mpr ⟨o, s₂, hfile, Ends.done _ _⟩
  · exact ends_bind.mpr ⟨rest, s', hrest, Ends.done _ _⟩

/-- In such a pass nobody looks at all the files, and if nothing is asked there are no changes. -/
theorem trace_of_handleAll {cs : List Snapshot.Change} {events : List WatchEvent}
    (h : Ends Live (handleAll g cs) s events s') :
    ∃ t, s'.trace = s.trace ++ t ∧ (∀ x ∈ t, ∀ sc r, x ≠ .look sc r) ∧ (t = [] → cs = []) := by
  induction cs generalizing s events with
  | nil =>
    obtain ⟨-, rfl⟩ := ends_done.mp h
    exact ⟨[], (List.append_nil _).symm, fun _ hx => absurd hx List.not_mem_nil, fun _ => rfl⟩
  | cons c cs ih =>
    obtain ⟨s₁, o, s₂, rest, hstop, hfile, hrest⟩ := of_ends_handleAll_cons h
    obtain ⟨u, htraces, hgives⟩ := ends_iff_traces.mp hfile
    obtain ⟨b, v, rfl, hv⟩ := (Ingestor.course_of_traces htraces).eq_cons
    obtain ⟨t, ht, hlooks, -⟩ := ih hrest
    refine ⟨.goesOn :: .read c.path b :: (v ++ t), ?_, ?_, nofun⟩
    · rw [ht, Live.trace_of_gives hgives, hstop.trace_eq]
      simp
    · intro x hx sc r
      rcases List.mem_cons.mp hx with rfl | hx
      · exact nofun
      rcases List.mem_cons.mp hx with rfl | hx
      · exact nofun
      rcases List.mem_append.mp hx with hx | hx
      · rintro rfl
        exact (hv _ hx).elim
      · exact hlooks x hx sc r

/-- A poll looks at the files, and if they can be listed, goes over those that have changed. -/
theorem of_ends_poll {events : List WatchEvent}
    (h : Ends Live (poll g known) s (known', events) s') :
    (∃ e, Live s (.host (.snapshot g.scanner)) (Except.error e) s' ∧ known' = known) ∨
      ∃ s₁ rest, Live s (.host (.snapshot g.scanner)) (Except.ok known') s₁ ∧
        Ends Live (handleAll g (known.changes known')) s₁ rest s' := by
  obtain ⟨r, s₁, hlook, h⟩ := ends_bind.mp h
  have hlive := ends_ask.mp hlook
  cases r with
  | error e =>
    obtain ⟨heq, rfl⟩ := ends_done.mp h
    exact Or.inl ⟨e, hlive, (Prod.mk.inj heq).1⟩
  | ok current =>
    obtain ⟨rest, s₂, hrest, h⟩ := ends_bind.mp h
    obtain ⟨heq, rfl⟩ := ends_done.mp h
    obtain ⟨rfl, -⟩ := Prod.mk.inj heq
    exact Or.inr ⟨s₁, rest, hlive, hrest⟩

/-- The first look of a watcher tells it of some files, or of none if they cannot be listed. -/
theorem of_ends_baseline (h : Ends Live (baseline g) s base s') :
    (∃ e, Live s (.host (.snapshot g.scanner)) (Except.error e) s' ∧ base = []) ∨
      Live s (.host (.snapshot g.scanner)) (Except.ok base) s' := by
  obtain ⟨r, s₁, hlook, h⟩ := ends_bind.mp h
  have hlive := ends_ask.mp hlook
  obtain ⟨rfl, rfl⟩ := ends_done.mp h
  cases r with
  | error e => exact Or.inl ⟨e, hlive, rfl⟩
  | ok current => exact Or.inr hlive

/-- A watcher at work: it rests and polls, some number of times. -/
inductive Polls (g : Ingestor) (interval : Nat) :
    (n : Nat) → Snapshot → Scene → Snapshot → Scene → Prop
  /-- it has not yet begun -/
  | none (known : Snapshot) (s : Scene) : Polls g interval 0 known s known s
  /-- it rests, polls, and goes on -/
  | poll {n : Nat} {known known₁ known₂ : Snapshot} {events : List WatchEvent}
    {s s₁ s₂ s₃ : Scene} (hrest : Ends Live (Work.rest interval) s false s₁)
    (hpoll : Ends Live (Watcher.poll g known) s₁ (known₁, events) s₂)
    (more : Polls g interval n known₁ s₂ known₂ s₃) : Polls g interval (n + 1) known s known₂ s₃

/-- The last poll of a watcher. -/
theorem polls_succ_iff :
    Polls g interval (n + 1) known s known' s' ↔
      ∃ known₁ s₁ s₂ events, Polls g interval n known s known₁ s₁ ∧
        Ends Live (Work.rest interval) s₁ false s₂ ∧
        Ends Live (Watcher.poll g known₁) s₂ (known', events) s' := by
  induction n generalizing known s with
  | zero =>
    constructor
    · rintro (_ | ⟨hrest, hpoll, ⟨⟩⟩)
      exact ⟨known, s, _, _, .none known s, hrest, hpoll⟩
    · rintro ⟨_, _, s₂, events, ⟨⟩, hrest, hpoll⟩
      exact .poll hrest hpoll (.none known' s')
  | succ n ih =>
    constructor
    · rintro (_ | ⟨hrest, hpoll, more⟩)
      obtain ⟨known₁, s₁, s₂, events, hpolls, hlast⟩ := ih.mp more
      exact ⟨known₁, s₁, s₂, events, .poll hrest hpoll hpolls, hlast⟩
    · rintro ⟨known₁, s₁, s₂, events, _ | ⟨hrest, hpoll, more⟩, hlast⟩
      exact .poll hrest hpoll (ih.mpr ⟨known₁, s₁, s₂, events, more, hlast⟩)

/-- What has been asked stays in the trace. -/
theorem Polls.prefix_trace (h : Polls g interval n known s known' s') : s.trace <+: s'.trace := by
  induction h with
  | none => exact List.prefix_rfl
  | poll hrest hpoll _ ih =>
    exact ((Live.prefix_of_ends hrest).trans (Live.prefix_of_ends hpoll)).trans ih

theorem ends_looks_iff :
    (∃ events, Ends Live (looks g interval n known) s events s') ↔
      ∃ known', Polls g interval n known s known' s' := by
  induction n generalizing known s with
  | zero =>
    constructor
    · rintro ⟨events, h⟩
      obtain ⟨-, rfl⟩ := ends_done.mp h
      exact ⟨known, .none known s'⟩
    · rintro ⟨known', h⟩
      cases h
      exact ⟨[], Ends.done _ _⟩
  | succ n ih =>
    constructor
    · rintro ⟨events, h⟩
      obtain ⟨stop, s₁, hrest, h⟩ := ends_bind.mp h
      obtain ⟨now, rfl⟩ := (ends_ask.mp hrest).sees
      obtain ⟨⟨known₁, first⟩, s₂, hpoll, h⟩ := ends_bind.mp h
      obtain ⟨rest, s₃, hmore, h⟩ := ends_bind.mp h
      obtain ⟨-, rfl⟩ := ends_done.mp h
      obtain ⟨known', hpolls⟩ := ih.mp ⟨rest, hmore⟩
      exact ⟨known', .poll hrest hpoll hpolls⟩
    · rintro ⟨known', h⟩
      cases h with
      | @poll _ _ known₁ _ first _ s₁ s₂ _ hrest hpoll more =>
        obtain ⟨rest, hmore⟩ := ih.mpr ⟨known', more⟩
        refine ⟨first ++ rest, ends_bind.mpr ⟨false, s₁, hrest, ?_⟩⟩
        refine ends_bind.mpr ⟨(known₁, first), s₂, hpoll, ?_⟩
        exact ends_bind.mpr ⟨rest, s', hmore, Ends.done _ _⟩

/-- **Watching is a first look and some polls.** -/
theorem ends_watch_iff :
    (∃ events, Ends Live (watch g interval n) s events s') ↔
      ∃ base s₁ known, Ends Live (baseline g) s base s₁ ∧ Polls g interval n base s₁ known s' := by
  constructor
  · rintro ⟨events, h⟩
    obtain ⟨base, s₁, hbase, h⟩ := ends_bind.mp h
    obtain ⟨known, hpolls⟩ := ends_looks_iff.mp ⟨events, h⟩
    exact ⟨base, s₁, known, hbase, hpolls⟩
  · rintro ⟨base, s₁, known, hbase, hpolls⟩
    obtain ⟨events, h⟩ := ends_looks_iff.mpr ⟨known, hpolls⟩
    exact ⟨events, ends_bind.mpr ⟨base, s₁, hbase, h⟩⟩

/-! ## Accounts of passes -/

section Accounts

/-- Requests to the machine that read no file have no effect. -/
theorem Ingestor.Accounts.host (h : g.Accounts s.memory s.trace) {c : Host.Call}
    {r : Host.Reply c} (hlive : Live s (.host c) r s') (hc : ∀ p, c ≠ .read p) :
    g.Accounts s'.memory s'.trace := by
  have hmemory : s'.memory = s.memory :=
    gives_nil.mp (of_gives_host (Gives.cons hlive.serves (Gives.nil s'.memory)))
  rw [hmemory, hlive.trace_eq]
  exact h.append (lastRead?_singleton_host hc)

theorem Ingestor.Accounts.processFile (h : g.Accounts s.memory s.trace)
    {o : Except IngestError FileOutcome} (hend : Ends Live (g.processFile p).run s o s') :
    g.Accounts s'.memory s'.trace := by
  obtain ⟨t, htraces, hgives⟩ := ends_iff_traces.mp hend
  rw [Live.trace_of_gives hgives]
  exact h.course htraces (Live.serves_of_gives hgives)

theorem Ingestor.Accounts.handleAll {cs : List Snapshot.Change} {events : List WatchEvent}
    (h : g.Accounts s.memory s.trace) (hend : Ends Live (Watcher.handleAll g cs) s events s') :
    g.Accounts s'.memory s'.trace := by
  induction cs generalizing s events with
  | nil =>
    obtain ⟨-, rfl⟩ := ends_done.mp hend
    exact h
  | cons c cs ih =>
    obtain ⟨s₁, o, s₂, rest, hstop, hfile, hrest⟩ := of_ends_handleAll_cons hend
    exact ih ((h.host hstop fun _ hc => nomatch hc).processFile hfile) hrest

theorem Ingestor.Accounts.poll {events : List WatchEvent} (h : g.Accounts s.memory s.trace)
    (hend : Ends Live (Watcher.poll g known) s (known', events) s') :
    g.Accounts s'.memory s'.trace := by
  rcases of_ends_poll hend with ⟨e, hlook, -⟩ | ⟨s₁, rest, hlook, hrest⟩
  · exact h.host hlook fun _ hc => nomatch hc
  · exact (h.host hlook fun _ hc => nomatch hc).handleAll hrest

theorem Ingestor.Accounts.baseline (h : g.Accounts s.memory s.trace)
    (hend : Ends Live (Watcher.baseline g) s base s') : g.Accounts s'.memory s'.trace := by
  rcases of_ends_baseline hend with ⟨e, hlook, -⟩ | hlook
  · exact h.host hlook fun _ hc => nomatch hc
  · exact h.host hlook fun _ hc => nomatch hc

/-- **A watcher at work accounts for what it reads.** -/
theorem Ingestor.Accounts.polls (h : g.Accounts s.memory s.trace)
    (hpolls : Polls g interval n known s known' s') : g.Accounts s'.memory s'.trace := by
  induction hpolls with
  | none => exact h
  | poll hrest hpoll _ ih =>
    exact ih ((h.host (ends_ask.mp hrest) fun _ hc => nomatch hc).poll hpoll)

theorem Ingestor.Accounts.processFiles {report result : IngestReport} {ps : List Path}
    (h : g.Accounts s.memory s.trace) (hend : Ends Live (g.processFiles report ps) s result s') :
    g.Accounts s'.memory s'.trace := by
  induction ps generalizing s report with
  | nil =>
    obtain ⟨-, rfl⟩ := ends_done.mp hend
    exact h
  | cons p ps ih =>
    obtain ⟨o, s₁, hfile, hrest⟩ := ends_bind.mp hend
    exact ih (h.processFile hfile) hrest

end Accounts

/-! ## Readings of passes -/

/-- The files of a pass over changed files are caught. -/
theorem caught_of_handleAll {cs : List Snapshot.Change} {c : Snapshot.Change}
    {events : List WatchEvent} (hend : Ends Live (handleAll g cs) s events s') (hc : c ∈ cs)
    (hhad : s.Had c.path time) : Caught c.path time s' := by
  induction cs generalizing s events with
  | nil => cases hc
  | cons d cs ih =>
    obtain ⟨s₁, o, s₂, rest, hstop, hfile, hrest⟩ := of_ends_handleAll_cons hend
    have hhad₁ := hstop.later.had hhad
    rcases List.mem_cons.mp hc with rfl | hc
    · exact (caught_of_processFile hfile hhad₁).of_ends hrest
    · exact ih hrest hc ((Live.later_of_ends hfile).had hhad₁)

/-- A file that has been read has been read whatever comes after. -/
theorem lastRead?_ne_none_of_ends {α : Type} {w : Work α} {a : α} (hend : Ends Live w s a s')
    (h : lastRead? p s.trace ≠ none) : lastRead? p s'.trace ≠ none := by
  obtain ⟨t, ht⟩ := Live.prefix_of_ends hend
  rw [← ht, lastRead?_append]
  cases lastRead? p t with
  | none => exact h
  | some b => exact Option.some_ne_none b

theorem lastRead?_of_processFiles {report result : IngestReport} {ps : List Path}
    (hend : Ends Live (g.processFiles report ps) s result s') (hp : p ∈ ps) :
    lastRead? p s'.trace ≠ none := by
  induction ps generalizing s report with
  | nil => cases hp
  | cons q ps ih =>
    obtain ⟨o, s₁, hfile, hrest⟩ := ends_bind.mp hend
    rcases List.mem_cons.mp hp with rfl | hp
    · refine lastRead?_ne_none_of_ends hrest ?_
      obtain ⟨t, htraces, hgives⟩ := ends_iff_traces.mp hfile
      obtain ⟨b, u, -, -, -, hlast, -⟩ := (Ingestor.course_of_traces htraces).lastRead?_eq
      rw [Live.trace_of_gives hgives, lastRead?_append, hlast, Option.some_or]
      exact Option.some_ne_none b
    · exact ih hrest hp

/-- **A pass over all files accounts for what it reads, and it reads every file on its list.** -/
theorem of_ends_processAll {report : IngestReport} (h : g.Accounts s.memory s.trace)
    (hend : Ends Live g.processAll s (.ok report) s') :
    g.Accounts s'.memory s'.trace ∧ ∃ paths rest,
      s'.trace = s.trace ++ ⟨.host (.scan g.scanner), Except.ok paths⟩ :: rest ∧
        ∀ p ∈ paths, lastRead? p s'.trace ≠ none := by
  obtain ⟨r, s₁, hscan, hend⟩ := ends_bind.mp hend
  have hlive := ends_ask.mp hscan
  cases r with
  | error e => cases (ends_done.mp hend).1
  | ok paths =>
    obtain ⟨result, s₂, hfiles, hend⟩ := ends_bind.mp hend
    obtain ⟨-, rfl⟩ := ends_done.mp hend
    obtain ⟨rest, hrest⟩ := Live.prefix_of_ends hfiles
    refine ⟨(h.host hlive fun _ hc => nomatch hc).processFiles hfiles, paths, rest, ?_,
      fun p hp => lastRead?_of_processFiles hfiles hp⟩
    rw [← hrest, hlive.trace_eq, List.append_assoc, List.singleton_append]

/-! ## What a watcher knows -/

/-- What is known of a file at an entry of a snapshot. -/
theorem exists_mem_of_time? (h : known.time? p = some time) :
    ∃ q, (q, time) ∈ known ∧ Path.same q p = true := by
  obtain ⟨⟨q, t⟩, hfind, rfl⟩ := Option.map_eq_some_iff.mp h
  have hsame := List.find?_some hfind
  exact ⟨q, List.mem_of_find?_eq_some hfind, hsame⟩

/-- A file whose time is not the one that is known is changed. -/
theorem exists_mem_changes (h : (p, time) ∈ known') (hne : known.time? p ≠ some time) :
    ∃ c ∈ known.changes known', c.path = p := by
  have hchange : ∃ c, known.change? p time = some c ∧ c.path = p := by
    rw [Snapshot.change?]
    split
    · exact ⟨_, rfl, rfl⟩
    · rename_i t ht
      rw [if_neg fun heq => hne (ht.trans (congrArg some heq))]
      exact ⟨_, rfl, rfl⟩
  obtain ⟨c, hc, hpath⟩ := hchange
  refine ⟨c, ?_, hpath⟩
  rw [Snapshot.changes, List.mem_mergeSort]
  exact List.mem_filterMap.mpr ⟨(p, time), h, hc⟩

/-- What a watcher knows and has not known from the start has been caught. -/
def KeepsUp (g : Ingestor) (base known : Snapshot) (s : Scene) : Prop :=
  ∀ p time, g.scanner.Spells p → known.time? p = some time → base.time? p ≠ some time →
    Caught p time s

/-- In the beginning it knows nothing else. -/
theorem keepsUp_self (g : Ingestor) (base : Snapshot) (s : Scene) : KeepsUp g base base s :=
  fun _ _ _ hknown hbase => absurd hknown hbase

theorem KeepsUp.of_ends {α : Type} {w : Work α} {a : α} (h : KeepsUp g base known s)
    (hend : Ends Live w s a s') : KeepsUp g base known s' :=
  fun p time hp hknown hbase => (h p time hp hknown hbase).of_ends hend

/-- A file of a snapshot that has just been taken is one of those that a scanner spells, and it has
had its time. -/
theorem mem_of_time? (hlive : Live s (.host (.snapshot g.scanner)) (Except.ok known) s')
    (hs : s.Proper) (hp : g.scanner.Spells p) (h : known.time? p = some time) :
    (p, time) ∈ known ∧ s'.Had p time := by
  obtain ⟨q, hq, hsame⟩ := exists_mem_of_time? h
  obtain ⟨hlists, hhad⟩ := hlive.sees known rfl _ hq
  obtain rfl := (hlists.spells (hlive.proper hs)).eq_of_same hp hsame
  exact ⟨hq, hhad⟩

/-- **A poll catches what it gets to know.** -/
theorem KeepsUp.poll {events : List WatchEvent} (h : KeepsUp g base known s) (hs : s.Proper)
    (hend : Ends Live (Watcher.poll g known) s (known', events) s') :
    KeepsUp g base known' s' := by
  rcases of_ends_poll hend with ⟨e, hlook, rfl⟩ | ⟨s₁, rest, hlook, hrest⟩
  · exact fun p time hp hknown hbase => (h p time hp hknown hbase).live hlook
  · intro p time hp hknown' hbase
    obtain ⟨hmem, hhad⟩ := mem_of_time? hlook hs hp hknown'
    by_cases hknown : known.time? p = some time
    · exact ((h p time hp hknown hbase).live hlook).of_ends hrest
    · obtain ⟨c, hc, rfl⟩ := exists_mem_changes hmem hknown
      exact caught_of_handleAll hrest hc hhad

theorem KeepsUp.polls (h : KeepsUp g base known s) (hs : s.Proper)
    (hpolls : Polls g interval n known s known' s') : KeepsUp g base known' s' := by
  induction hpolls with
  | none => exact h
  | poll hrest hpoll _ ih =>
    have hs₁ := Live.proper_of_ends hrest hs
    exact ih ((h.of_ends hrest).poll hs₁ hpoll) (Live.proper_of_ends hpoll hs₁)

theorem Caught.polls (h : Caught p time s) (hpolls : Polls g interval n known s known' s') :
    Caught p time s' := by
  induction hpolls with
  | none => exact h
  | poll hrest hpoll _ ih => exact ih ((h.of_ends hrest).of_ends hpoll)

end MarkdownIndex
