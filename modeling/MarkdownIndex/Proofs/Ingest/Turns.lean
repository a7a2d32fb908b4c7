import Mathlib
import MarkdownIndex.Proofs.Files.Text
import MarkdownIndex.Proofs.Ingest.Settle
import MarkdownIndex.Proofs.Ingest.Trace

/-!
# Turns: a pass over all files, file by file

A pass lists the files and then takes one after the other. With a store that refuses nothing and an
embedder that is a function, no file notices the others, unless their paths have one text: the first
turn of a path settles it, and after that it stays as it is, until the end of the pass and in the
next one.

* `Turn` — a file in its turn: what has been asked, and how it ended.
* `Pass`, `exists_pass_iff` — a pass over all files of a world, turn by turn.
* `Settled` — the next turn of a path changes nothing of what is held of it.
* `Takes.of_settled`, `Takes.of_mem` — what has been settled stays, and the first turn of a path
  settles it.
* `Pass.tallies` — the report of a pass counts every file once, and every chunk of a processed one.
-/

namespace MarkdownIndex

open Memory World Program

/-- A file in its turn. -/
structure Turn where
  /-- its path -/
  path : Path
  /-- what has been asked, with the answers -/
  trace : List (Exchange Work.interface)
  /-- how it ended -/
  outcome : Except IngestError FileOutcome

/-- The file has been processed. -/
def Turn.isProcessed (x : Turn) : Bool :=
  match x.outcome with
  | .ok (.processed _) => true
  | _ => false

/-- The files are listed. -/
abbrev Exchange.scanned (s : Scanner) (paths : List Path) : Exchange Work.interface :=
  ⟨.host (.scan s), Except.ok paths⟩

namespace Ingestor

variable {F : Faults} {f : List String → Except EmbeddingError (List Embedding)} {g : Ingestor}
variable {w w' : World} {r : IngestReport} {x : Turn} {xs : List Turn} {q : Path}
variable {t : List (Exchange Work.interface)}

/-! ## Passes -/

/-- What is asked in a pass. -/
def passTrace (g : Ingestor) (xs : List Turn) : List (Exchange Work.interface) :=
  .scanned g.scanner (xs.map Turn.path) :: xs.flatMap Turn.trace

/-- A pass over all files of a world, which ends with a report in another world. -/
structure Pass (F : Faults) (g : Ingestor) (w : World) (xs : List Turn) (r : IngestReport)
    (w' : World) : Prop where
  /-- each turn is that of a file -/
  turns : ∀ x ∈ xs, Traces (g.processFile x.path).run x.trace x.outcome
  /-- the files are listed and take their turns, and there is no more to it -/
  traces : Traces g.processAll (g.passTrace xs) (.ok r)
  /-- the world answers -/
  gives : Gives (Answers F) w (g.passTrace xs) w'

/-- The report of some outcomes. -/
def reportOf (os : List (Except IngestError FileOutcome)) : IngestReport :=
  os.foldl IngestReport.record {}

/-- One after the other the files take their turns. -/
theorem traces_processFiles {paths : List Path} {r₀ : IngestReport} :
    Traces (g.processFiles r₀ paths) t r ↔
      ∃ xs : List Turn, xs.map Turn.path = paths ∧ t = xs.flatMap Turn.trace ∧
        r = (xs.map Turn.outcome).foldl IngestReport.record r₀ ∧
        ∀ x ∈ xs, Traces (g.processFile x.path).run x.trace x.outcome := by
  induction paths generalizing r₀ t with
  | nil =>
    constructor
    · intro h
      obtain ⟨rfl, rfl⟩ := traces_done.mp h
      exact ⟨[], rfl, rfl, rfl, fun _ hx => absurd hx List.not_mem_nil⟩
    · rintro ⟨xs, hpaths, rfl, rfl, -⟩
      obtain rfl := List.map_eq_nil_iff.mp hpaths
      exact traces_done.mpr ⟨rfl, rfl⟩
  | cons path paths ih =>
    refine traces_bind.trans ⟨?_, ?_⟩
    · rintro ⟨o, u, v, rfl, hfile, hrest⟩
      obtain ⟨xs, rfl, rfl, rfl, hturns⟩ := ih.mp hrest
      refine ⟨⟨path, u, o⟩ :: xs, rfl, rfl, rfl, fun x hx => ?_⟩
      rcases List.mem_cons.mp hx with rfl | hx
      · exact hfile
      · exact hturns x hx
    · rintro ⟨xs, hpaths, rfl, rfl, hturns⟩
      obtain ⟨x, xs, rfl, rfl, rfl⟩ := List.map_eq_cons_iff.mp hpaths
      refine ⟨x.outcome, x.trace, _, rfl, hturns x List.mem_cons_self, ih.mpr ?_⟩
      exact ⟨xs, rfl, rfl, rfl, fun y hy => hturns y (List.mem_cons_of_mem _ hy)⟩

/-- The files are listed first. -/
theorem traces_processAll {paths : List Path} :
    Traces g.processAll (.scanned g.scanner paths :: t) (.ok r) ↔
      Traces (g.processFiles {} paths) t r := by
  constructor
  · intro h
    obtain ⟨found, u, v, huv, hscan, hrest⟩ := traces_bind.mp h
    obtain rfl := traces_ask.mp hscan
    obtain ⟨hhead, rfl⟩ := List.cons.inj huv
    obtain rfl := eq_of_heq (Exchange.mk.inj hhead).2
    obtain ⟨r', u, v, rfl, hfiles, hdone⟩ := traces_bind.mp hrest
    obtain ⟨hr, rfl⟩ := traces_done.mp hdone
    obtain rfl := Except.ok.inj hr
    rwa [List.append_nil]
  · intro h
    refine traces_bind.mpr ⟨.ok paths, [_], t, rfl, traces_ask.mpr rfl, ?_⟩
    exact traces_bind.mpr ⟨r, t, [], (List.append_nil t).symm, h, traces_done.mpr ⟨rfl, rfl⟩⟩

/-- **A pass that ends with a report is one of turns,** and there is no more to it. -/
theorem exists_pass_iff :
    (∃ xs, Pass F g w xs r w') ↔ Ends (Answers F) g.processAll w (.ok r) w' := by
  constructor
  · rintro ⟨xs, h⟩
    exact ends_iff_traces.mpr ⟨_, h.traces, h.gives⟩
  · intro h
    obtain ⟨t, htraces, hgives⟩ := ends_iff_traces.mp h
    obtain ⟨found, u, v, rfl, hscan, hrest⟩ := traces_bind.mp htraces
    obtain rfl := traces_ask.mp hscan
    cases found with
    | error e => cases (traces_done.mp hrest).1
    | ok paths =>
      obtain ⟨xs, rfl, rfl, -, hturns⟩ := traces_processFiles.mp (traces_processAll.mp htraces)
      exact ⟨xs, hturns, htraces, hgives⟩

/-- In a world whose embedder answers and whose files can be listed there is a pass. -/
theorem exists_pass {paths : List Path} (hF : ∀ texts, ∃ a, F.embeds texts a)
    (hscan : g.scanner.scan w.files = .ok paths) : ∃ xs r w', Pass F g w xs r w' := by
  obtain ⟨r, w', hfiles⟩ := World.exists_ends hF (g.processFiles {} paths) w
  have hend : Ends (Answers F) g.processAll w (.ok r) w' := by
    refine ends_bind.mpr ⟨.ok paths, w, ends_host.mpr ⟨0, hscan.symm, rfl⟩, ?_⟩
    exact ends_bind.mpr ⟨r, w', hfiles, ends_done.mpr ⟨rfl, rfl⟩⟩
  obtain ⟨xs, hpass⟩ := exists_pass_iff.mpr hend
  exact ⟨xs, r, w', hpass⟩

/-- The report is that of the outcomes. -/
theorem Pass.report_eq (h : Pass F g w xs r w') : r = reportOf (xs.map Turn.outcome) := by
  have hfiles := traces_processAll.mp h.traces
  have hturns : Traces (g.processFiles {} (xs.map Turn.path)) (xs.flatMap Turn.trace)
      (reportOf (xs.map Turn.outcome)) := traces_processFiles.mpr ⟨xs, rfl, rfl, rfl, h.turns⟩
  exact hfiles.unique hturns

/-- The files of a pass are those that are found. -/
theorem Pass.scan_eq (h : Pass F g w xs r w') :
    g.scanner.scan w.files = .ok (xs.map Turn.path) := by
  obtain ⟨w₁, hanswer, -⟩ := gives_cons.mp h.gives
  obtain ⟨_, hscan, -⟩ := ends_host.mp (ends_ask.mpr hanswer)
  exact hscan.symm

/-! ## Turn after turn -/

/-- In a world files take their turns, one after the other. -/
inductive Takes (F : Faults) (g : Ingestor) : World → List Turn → World → Prop
  /-- no files, no change -/
  | nil (w : World) : Takes F g w [] w
  /-- a file, and those after it -/
  | cons {w w₁ w₂ : World} {x : Turn} {xs : List Turn}
    (hfile : Ends (Answers F) (g.processFile x.path).run w x.outcome w₁)
    (rest : Takes F g w₁ xs w₂) : Takes F g w (x :: xs) w₂

theorem takes_of_gives (hturns : ∀ x ∈ xs, Traces (g.processFile x.path).run x.trace x.outcome)
    (h : Gives (Answers F) w (xs.flatMap Turn.trace) w') : Takes F g w xs w' := by
  induction xs generalizing w with
  | nil =>
    obtain rfl := gives_nil.mp h
    exact Takes.nil w'
  | cons x xs ih =>
    obtain ⟨w₁, hfile, hrest⟩ := gives_append.mp h
    refine Takes.cons ?_ (ih (fun y hy => hturns y (List.mem_cons_of_mem _ hy)) hrest)
    exact ends_iff_traces.mpr ⟨x.trace, hturns x List.mem_cons_self, hfile⟩

theorem Pass.takes (h : Pass F g w xs r w') : Takes F g w xs w' := by
  obtain ⟨w₁, hanswer, hrest⟩ := gives_cons.mp h.gives
  obtain ⟨_, -, rfl⟩ := ends_host.mp (ends_ask.mpr hanswer)
  exact takes_of_gives h.turns hrest

theorem Pass.files_eq (h : Pass F g w xs r w') : w'.files = w.files :=
  files_eq_of_ends (exists_pass_iff.mp ⟨xs, h⟩)

theorem Pass.wellFormed (h : Pass F g w xs r w') (hw : w.memory.WellFormed) :
    w'.memory.WellFormed :=
  wellFormed_of_ends (exists_pass_iff.mp ⟨xs, h⟩) hw

/-! ## What has been settled stays -/

/-- What becomes of a path in its next turn. -/
def next (g : Ingestor) (f : List String → Except EmbeddingError (List Embedding)) (w : World)
    (q : Path) : Except IngestError FileOutcome × Holding :=
  g.settle f q (Files.read w.files q) (w.memory.holding (Path.text q))

/-- The next turn of a path changes nothing of what is held of it. -/
def Settled (g : Ingestor) (f : List String → Except EmbeddingError (List Embedding)) (w : World)
    (q : Path) : Prop := (g.next f w q).2 = w.memory.holding (Path.text q)

theorem next_congr (hfiles : w'.files = w.files)
    (hholding : w'.memory.holding (Path.text q) = w.memory.holding (Path.text q)) :
    g.next f w' q = g.next f w q := by
  rw [next, hfiles, hholding, next]

theorem Settled.congr (h : g.Settled f w q) (hfiles : w'.files = w.files)
    (hholding : w'.memory.holding (Path.text q) = w.memory.holding (Path.text q)) :
    g.Settled f w' q := by
  rw [Settled, next_congr hfiles hholding, hholding]
  exact h

theorem settled_of_settle {k : Holding} {read : Except Files.FileError (List UInt8)}
    (hread : Files.read w.files q = read)
    (hq : w.memory.holding (Path.text q) = (g.settle f q read k).2) : g.Settled f w q := by
  rw [Settled, next, hread, hq, settle_settle]

/-- A turn does to its path what was to be done, and leaves alone what is held of other texts. -/
theorem of_turn (hw : w.memory.WellFormed)
    (h : Ends (Answers (.steady f)) (g.processFile x.path).run w x.outcome w') :
    g.next f w x.path = (x.outcome, w'.memory.holding (Path.text x.path)) ∧
      g.Settled f w' x.path ∧
      ∀ k, k ≠ Path.text x.path → w'.memory.holding k = w.memory.holding k := by
  have hlands := lands_of_ends hw h
  have hfiles := files_eq_of_ends h
  refine ⟨?_, settled_of_settle (by rw [hfiles]) hlands.holding_eq, hlands.holding_of_ne⟩
  rw [hlands.outcome_eq, hlands.holding_eq, next]

/-- A turn keeps what has been settled, unless it is that of another path with the same text. -/
theorem holding_of_turn (hw : w.memory.WellFormed)
    (h : Ends (Answers (.steady f)) (g.processFile x.path).run w x.outcome w')
    (hq : g.Settled f w q) (hx : Path.text x.path = Path.text q → x.path = q) :
    w'.memory.holding (Path.text q) = w.memory.holding (Path.text q) := by
  obtain ⟨hnext, -, hothers⟩ := of_turn hw h
  by_cases htext : Path.text x.path = Path.text q
  · obtain rfl := hx htext
    rwa [Settled, hnext] at hq
  · exact hothers _ fun heq => htext heq.symm

theorem Takes.files_eq (h : Takes F g w xs w') : w'.files = w.files := by
  induction h with
  | nil w => rfl
  | cons hfile _ ih => exact ih.trans (files_eq_of_ends hfile)

/-- How the first turn of a path ended. -/
def outcomeOf (xs : List Turn) (q : Path) : Option (Except IngestError FileOutcome) :=
  (xs.find? fun x => x.path = q).map Turn.outcome

theorem outcomeOf_cons_self (x : Turn) (xs : List Turn) :
    outcomeOf (x :: xs) x.path = some x.outcome := by
  simp [outcomeOf]

theorem outcomeOf_cons_of_ne (hq : q ≠ x.path) : outcomeOf (x :: xs) q = outcomeOf xs q := by
  simp [outcomeOf, hq.symm]

section Apart

variable (hone : Path.Apart (xs.map Turn.path) q)
include hone

/-- **What has been settled stays,** whatever turns of other texts come, and they end accordingly.
-/
theorem Takes.of_settled (h : Takes (.steady f) g w xs w') (hw : w.memory.WellFormed)
    (hq : g.Settled f w q) :
    w'.memory.holding (Path.text q) = w.memory.holding (Path.text q) ∧
      ∀ x ∈ xs, x.path = q → x.outcome = (g.next f w q).1 := by
  induction h with
  | nil w => exact ⟨rfl, fun _ hx => absurd hx List.not_mem_nil⟩
  | @cons w w₁ w₂ x xs hfile rest ih =>
    have hrest := hone.of_subset (List.subset_cons_self x.path _)
    have hholding := holding_of_turn hw hfile hq (hone x.path List.mem_cons_self)
    have hfiles := files_eq_of_ends hfile
    obtain ⟨hkept, houtcomes⟩ :=
      ih hrest (wellFormed_of_ends hfile hw) (hq.congr hfiles hholding)
    refine ⟨hkept.trans hholding, fun y hy hpath => ?_⟩
    rcases List.mem_cons.mp hy with rfl | hy
    · rw [← hpath, (of_turn hw hfile).1]
    · rw [houtcomes y hy hpath, next_congr hfiles hholding]

/-- After all turns a path that has had one is settled: how its turn ended, and what is held of it
now, is what becomes of the file by what was held of it at some time. -/
theorem Takes.reached (h : Takes (.steady f) g w xs w') (hw : w.memory.WellFormed) (hx : x ∈ xs)
    (hq : x.path = q) :
    ∃ k, g.settle f q (Files.read w.files q) k =
      (x.outcome, w'.memory.holding (Path.text q)) := by
  induction h with
  | nil w => exact absurd hx List.not_mem_nil
  | @cons w w₁ w₂ y xs hfile rest ih =>
    have hrest := hone.of_subset (List.subset_cons_self y.path _)
    have hw₁ := wellFormed_of_ends hfile hw
    rcases List.mem_cons.mp hx with rfl | hx
    · subst hq
      obtain ⟨hnext, hsettled, -⟩ := of_turn hw hfile
      refine ⟨w.memory.holding (Path.text x.path), ?_⟩
      rw [(rest.of_settled hrest hw₁ hsettled).1, ← hnext, next]
    · obtain ⟨k, hk⟩ := ih hrest hw₁ hx
      rw [files_eq_of_ends hfile] at hk
      exact ⟨k, hk⟩

/-- In another turn it would be skipped, or fail as before. -/
theorem Takes.next_of_mem (h : Takes (.steady f) g w xs w') (hw : w.memory.WellFormed)
    (hx : x ∈ xs) (hq : x.path = q) :
    g.next f w' q = (again x.outcome, w'.memory.holding (Path.text q)) := by
  obtain ⟨k, hk⟩ := h.reached hone hw hx hq
  have hagain := settle_settle (f := f) g q (Files.read w.files q) k
  rw [hk] at hagain
  rw [next, h.files_eq]
  exact hagain

/-- **The first turn of a path decides what is held of it.** -/
theorem Takes.of_mem (h : Takes (.steady f) g w xs w') (hw : w.memory.WellFormed)
    (hq : q ∈ xs.map Turn.path) :
    outcomeOf xs q = some (g.next f w q).1 ∧
      w'.memory.holding (Path.text q) = (g.next f w q).2 := by
  induction h with
  | nil w => exact absurd hq List.not_mem_nil
  | @cons w w₁ w₂ x xs hfile rest ih =>
    have hrest := hone.of_subset (List.subset_cons_self x.path _)
    obtain ⟨hnext, hsettled, hothers⟩ := of_turn hw hfile
    have hw₁ := wellFormed_of_ends hfile hw
    by_cases hx : q = x.path
    · subst hx
      rw [outcomeOf_cons_self, (rest.of_settled hrest hw₁ hsettled).1, hnext]
      exact ⟨rfl, rfl⟩
    · have hmem : q ∈ xs.map Turn.path := (List.mem_cons.mp hq).resolve_left hx
      have hholding := hothers (Path.text q) fun heq =>
        hx (hone x.path List.mem_cons_self heq.symm).symm
      obtain ⟨houtcome, hafter⟩ := ih hrest hw₁ hmem
      rw [next_congr (files_eq_of_ends hfile) hholding] at houtcome hafter
      rw [outcomeOf_cons_of_ne hx]
      exact ⟨houtcome, hafter⟩

end Apart

/-- What is held of a text that no path has that has a turn is left alone. -/
theorem Takes.holding_of_not_mem {k : String} (h : Takes (.steady f) g w xs w')
    (hw : w.memory.WellFormed) (hk : ∀ x ∈ xs, Path.text x.path ≠ k) :
    w'.memory.holding k = w.memory.holding k := by
  induction h with
  | nil w => rfl
  | @cons w w₁ w₂ x xs hfile rest ih =>
    obtain ⟨hx, hxs⟩ := List.forall_mem_cons.mp hk
    rw [ih (wellFormed_of_ends hfile hw) hxs, (of_turn hw hfile).2.2 k hx.symm]

/-! ## Reports -/

theorem foldl_record_total (os : List (Except IngestError FileOutcome)) (r : IngestReport) :
    (os.foldl IngestReport.record r).processed + (os.foldl IngestReport.record r).skipped +
      (os.foldl IngestReport.record r).failed = r.processed + r.skipped + r.failed + os.length := by
  induction os generalizing r with
  | nil => rfl
  | cons o os ih =>
    have hstep : (r.record o).processed + (r.record o).skipped + (r.record o).failed =
        r.processed + r.skipped + r.failed + 1 := by
      rcases o with e | n | _
      · rfl
      · simp only [IngestReport.record]
        omega
      · simp only [IngestReport.record]
        omega
    rw [List.foldl_cons, ih, hstep, List.length_cons]
    omega

/-- The chunks of a file that has been processed. -/
def written : Except IngestError FileOutcome → Nat
  | .ok (.processed n) => n
  | _ => 0

theorem foldl_record_chunksWritten (os : List (Except IngestError FileOutcome))
    (r : IngestReport) :
    (os.foldl IngestReport.record r).chunksWritten = r.chunksWritten + (os.map written).sum := by
  induction os generalizing r with
  | nil => rfl
  | cons o os ih =>
    have hstep : (r.record o).chunksWritten = r.chunksWritten + written o := by
      rcases o with e | n | _ <;> rfl
    rw [List.foldl_cons, ih, hstep, List.map_cons, List.sum_cons, Nat.add_assoc]

/-- The chunks of the files that have been processed, counted in another way. -/
theorem sum_written {count : Turn → Nat}
    (h : ∀ x ∈ xs, ∀ n, x.outcome = .ok (.processed n) → n = count x) :
    ((xs.map Turn.outcome).map written).sum = ((xs.filter Turn.isProcessed).map count).sum := by
  induction xs with
  | nil => rfl
  | cons x xs ih =>
    have hrest := ih fun y hy => h y (List.mem_cons_of_mem _ hy)
    have hhead := h x List.mem_cons_self
    obtain ⟨path, trace, o⟩ := x
    rcases o with e | n | _
    · rw [List.map_cons, List.map_cons, List.sum_cons, hrest]
      exact Nat.zero_add _
    · rw [List.map_cons, List.map_cons, List.sum_cons, hrest, List.filter_cons_of_pos rfl,
        List.map_cons, List.sum_cons, ← hhead n rfl]
      rfl
    · rw [List.map_cons, List.map_cons, List.sum_cons, hrest]
      exact Nat.zero_add _

/-- The chunks of a file; none if it has no text. -/
def pieces (g : Ingestor) (files : Files.Disk) (p : Path) : List Chunk :=
  match Files.read files p with
  | .ok bytes => ((Text.decode? bytes).map fun cs => chunks g.limits (String.ofList cs)).getD []
  | .error _ => []

/-- A file that is processed has as many chunks as it says. -/
theorem Takes.length_pieces (h : Takes F g w xs w') (hx : x ∈ xs) {n : Nat}
    (hn : x.outcome = .ok (.processed n)) : n = (g.pieces w.files x.path).length := by
  induction h with
  | nil w => exact absurd hx List.not_mem_nil
  | @cons w w₁ w₂ y xs hfile rest ih =>
    rcases List.mem_cons.mp hx with rfl | hx
    · rw [hn] at hfile
      cases effect_of_ends hfile with
      | @written bytes text d now s hd htouches hrows =>
        simp only [pieces, hd.read, hd.decoded, Option.map_some, Option.getD_some]
    · rw [ih hx, files_eq_of_ends hfile]

/-- A report of some turns that counts every file once, and every chunk of a file that has been
processed. -/
structure Tallies (g : Ingestor) (files : Files.Disk) (xs : List Turn) (r : IngestReport)
    (s : Memory) : Prop where
  /-- every file has been processed or skipped, or has failed -/
  total_eq : r.processed + r.skipped + r.failed = xs.length
  /-- the chunks of the processed files have been written -/
  chunksWritten_eq : r.chunksWritten =
    ((xs.filter Turn.isProcessed).map fun x => (g.pieces files x.path).length).sum
  /-- so many of a processed file are in the store, unless another file has the text of its path -/
  chunkCount_eq : ∀ x ∈ xs.filter Turn.isProcessed, Path.Apart (xs.map Turn.path) x.path →
    s.chunkCount (Path.text x.path) = (g.pieces files x.path).length

/-- **The report of a pass counts every file and every chunk once.** -/
theorem Pass.tallies (h : Pass (.steady f) g w xs r w') (hw : w.memory.WellFormed) :
    Tallies g w.files xs r w'.memory := by
  have htotal := foldl_record_total (xs.map Turn.outcome) {}
  have hwritten := foldl_record_chunksWritten (xs.map Turn.outcome) {}
  rw [List.length_map] at htotal
  rw [sum_written fun x hx n hn => h.takes.length_pieces hx hn] at hwritten
  rw [h.report_eq]
  refine ⟨htotal.trans (Nat.zero_add _), hwritten.trans (Nat.zero_add _), fun x hx hone => ?_⟩
  obtain ⟨hx, hprocessed⟩ := List.mem_filter.mp hx
  obtain ⟨k, hk⟩ := h.takes.reached hone hw hx rfl
  obtain ⟨n, hn⟩ : ∃ n, x.outcome = .ok (.processed n) := by
    rw [Turn.isProcessed] at hprocessed
    split at hprocessed
    · rename_i n hn
      exact ⟨n, hn⟩
    · cases hprocessed
  have hsettled : (g.settle f x.path (Files.read w.files x.path) k).1 = .ok (.processed n) := by
    rw [hk, hn]
  rw [chunkCount_eq, ← h.takes.length_pieces hx hn, ← length_settle hsettled, hk]

end Ingestor

end MarkdownIndex
