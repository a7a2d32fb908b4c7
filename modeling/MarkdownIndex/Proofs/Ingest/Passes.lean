import MarkdownIndex.Proofs.Certificate
import MarkdownIndex.Proofs.Ingest.Turns

/-!
# Passes compared: two passes over the same file, and two passes in a row

The embedder is a function that may fail, and the store refuses nothing. Files whose paths have one
text share a document, and so each of them undoes what has been done for the other.

* `agree_of_passes` — what a pass does to a file depends on its bytes and on what the store held of
  it, whatever the other files are and whatever becomes of them; `not_always_agree` — but not if
  another file has the text of its path.
* `IngestReport.repeated` — the report of a pass that comes right after another.
* `pass_again` — a second pass changes nothing: it asks no more of the files that did not fail than
  their bytes and their hashes, and the others fail again; `not_always_repeated` — but files with
  one text are processed in every pass.
-/

namespace MarkdownIndex

open Memory World Program

/-- The report of the next pass: what has been processed or skipped is skipped, and what has failed
fails. -/
def IngestReport.repeated (r : IngestReport) : IngestReport :=
  ⟨0, r.processed + r.skipped, r.failed, 0⟩

namespace Ingestor

variable {F : Faults} {f : List String → Except EmbeddingError (List Embedding)} {g : Ingestor}
variable {w v w₁ w₂ : World} {r r' : IngestReport} {xs ys : List Turn} {x y : Turn}
variable {ps qs : List Path} {q : Path}

/-- A steady embedder answers. -/
theorem exists_embeds_steady (f : List String → Except EmbeddingError (List Embedding))
    (texts : List String) : ∃ a, (Faults.steady f).embeds texts a := ⟨f texts, rfl⟩

/-! ## Two worlds -/

/-- **Documents do not influence each other in a pass.** Say that a file is found in two worlds,
with the same bytes, and that their stores hold the same of it: title, hash and passages in order.
Then there is a pass over all files in both. After any two passes the stores hold the same of the
file again, and it has ended in the same way, unless another file that is found has the text of its
path. The report of each counts every file that was found and every chunk of a processed one. -/
theorem agree_of_passes (hw : w.memory.WellFormed) (hv : v.memory.WellFormed)
    (hps : g.scanner.scan w.files = .ok ps) (hqs : g.scanner.scan v.files = .ok qs)
    (hq : q ∈ ps) (hq' : q ∈ qs) (hread : Files.read w.files q = Files.read v.files q)
    (hholding : w.memory.holding (Path.text q) = v.memory.holding (Path.text q)) :
    (∃ xs r w₁, Pass (.steady f) g w xs r w₁) ∧ (∃ ys r' v₁, Pass (.steady f) g v ys r' v₁) ∧
      ∀ xs r w₁ ys r' v₁, Pass (.steady f) g w xs r w₁ → Pass (.steady f) g v ys r' v₁ →
        (Path.Apart ps q → Path.Apart qs q →
          w₁.memory.holding (Path.text q) = v₁.memory.holding (Path.text q) ∧
            ∃ o, outcomeOf xs q = some o ∧ outcomeOf ys q = some o) ∧
        (xs.map Turn.path = ps ∧ Tallies g w.files xs r w₁.memory) ∧
        (ys.map Turn.path = qs ∧ Tallies g v.files ys r' v₁.memory) := by
  refine ⟨exists_pass (exists_embeds_steady f) hps, exists_pass (exists_embeds_steady f) hqs, ?_⟩
  intro xs r w₁ ys r' v₁ hpass hpass'
  have hpaths : xs.map Turn.path = ps := Except.ok.inj (hpass.scan_eq.symm.trans hps)
  have hpaths' : ys.map Turn.path = qs := Except.ok.inj (hpass'.scan_eq.symm.trans hqs)
  refine ⟨fun hone hone' => ?_, ⟨hpaths, hpass.tallies hw⟩, ⟨hpaths', hpass'.tallies hv⟩⟩
  have hnext : g.next f w q = g.next f v q := by rw [next, hread, hholding, next]
  rw [← hpaths] at hone hq
  rw [← hpaths'] at hone' hq'
  obtain ⟨houtcome, hafter⟩ := hpass.takes.of_mem hone hw hq
  obtain ⟨houtcome', hafter'⟩ := hpass'.takes.of_mem hone' hv hq'
  rw [hnext] at houtcome hafter
  exact ⟨hafter.trans hafter'.symm, _, houtcome, houtcome'⟩

/-- The embedder that gives empty vectors. -/
def emptyVectors (texts : List String) : Except EmbeddingError (List Embedding) :=
  .ok (texts.map fun _ => [])

/-- A directory with an empty file before the one of the sample world, which has another time here,
and a store with a document. -/
def crowdedWorld : World :=
  ⟨Files.flatDisk [(Path.ofText "0.md", .file [] 0), (sampleName, .file [35, 32, 65] 7)],
    (({} : Memory).upsert sampleDocument 0).2⟩

/-- The file of the sample world ends there as it does alone. -/
theorem agree_of_passes_crowded :
    ∃ xs r w₁ ys r' v₁,
      Pass (.steady emptyVectors) watchIngestor sampleWorld xs r w₁ ∧
      Pass (.steady emptyVectors) watchIngestor crowdedWorld ys r' v₁ ∧
      w₁.memory.holding "./a.md" = v₁.memory.holding "./a.md" ∧
      (∃ o, outcomeOf xs samplePath = some o ∧ outcomeOf ys samplePath = some o) ∧
      r.processed + r.skipped + r.failed = 1 ∧ r'.processed + r'.skipped + r'.failed = 2 := by
  have hother : Path.join Path.here (Path.ofText "0.md") = Path.ofText "./0.md" := by
    decide +kernel
  obtain ⟨qs, hscan, hlength, hfound, htexts⟩ : ∃ qs,
      watchIngestor.scanner.scan crowdedWorld.files = .ok qs ∧ qs.length = 2 ∧ samplePath ∈ qs ∧
        ∀ p ∈ qs, ∃ s, p = Path.ofText s := by
    refine ⟨_, scan_watchIngestor (by simp [Files.Entry.IsFile]), ?_, ?_, ?_⟩
    · simp
    · simp [List.mem_mergeSort, samplePath]
    · simp only [List.mem_mergeSort, List.map_cons, List.map_nil, List.forall_mem_cons, hother]
      exact ⟨⟨_, rfl⟩, ⟨_, samplePath_eq⟩, fun _ h => absurd h List.not_mem_nil⟩
  have hread : Files.read sampleWorld.files samplePath =
      Files.read crowdedWorld.files samplePath := by decide +kernel
  have hholding : sampleWorld.memory.holding (Path.text samplePath) =
      crowdedWorld.memory.holding (Path.text samplePath) := by
    have hne : "./a.md" ≠ sampleDocument.path := by decide +kernel
    have hnone : ({} : Memory).document? "./a.md" = none := rfl
    rw [text_samplePath, sampleWorld, crowdedWorld, holding_of_none hnone, holding_of_none]
    rw [document?_upsert_of_ne wellFormed_empty hne, hnone]
  obtain ⟨⟨xs, r, w₁, hpass⟩, ⟨ys, r', v₁, hpass'⟩, hagree⟩ := agree_of_passes
    (f := emptyVectors) (v := crowdedWorld) wellFormed_empty
    wellFormed_empty.upsert scan_sampleWorld hscan List.mem_cons_self hfound hread hholding
  obtain ⟨hsame, ⟨hpaths, htallies⟩, hpaths', htallies'⟩ := hagree xs r w₁ ys r' v₁ hpass hpass'
  have hone : Path.Apart [samplePath] samplePath := fun p hp _ => List.mem_singleton.mp hp
  have hone' : Path.Apart qs samplePath := samplePath_eq ▸ Path.apart_of_texts htexts "./a.md"
  obtain ⟨hafter, houtcome⟩ := hsame hone hone'
  rw [text_samplePath] at hafter
  refine ⟨xs, r, w₁, ys, r', v₁, hpass, hpass', hafter, houtcome, ?_, ?_⟩
  · rw [htallies.total_eq, ← List.length_map Turn.path, hpaths]
    rfl
  · rw [htallies'.total_eq, ← List.length_map Turn.path, hpaths', hlength]

/-! ## Files with one text -/

/-- One of two names that have one text, since their second bytes are no characters. -/
def twin (b : UInt8) : FileName := [97, b, 46, 109, 100]

/-- The path of one of two files with these names, when they are scanned. -/
def twinPath (b : UInt8) : Path := Path.join Path.here (twin b)

/-- A directory with the two files, and an empty store. -/
def twinWorld : World where
  files := Files.flatDisk [(twin 254, .file [35, 32, 65] 0), (twin 255, .file [35, 32, 66] 0)]
  memory := {}

theorem text_twinPath {b : UInt8} (hb : b = 254 ∨ b = 255) :
    Path.text (twinPath b) = "./a\uFFFD.md" := by
  rcases hb with rfl | rfl <;> decide +kernel

theorem scan_twinWorld :
    watchIngestor.scanner.scan twinWorld.files = .ok [twinPath 254, twinPath 255] := by
  rw [twinWorld, scan_watchIngestor (by simp [Files.Entry.IsFile])]
  refine congrArg Except.ok (List.mergeSort_of_pairwise ?_)
  decide +kernel

/-- What a heading of one letter comes to that is new. -/
theorem settle_heading {p : Path} {b : UInt8} {k : Holding} (hb : b = 65 ∨ b = 66)
    (hnew : k.hash ≠ some (Sha256.hexDigest [35, 32, b])) :
    (watchIngestor.settle emptyVectors p (.ok [35, 32, b]) k).1 = .ok (.processed 1) ∧
      (watchIngestor.settle emptyVectors p (.ok [35, 32, b]) k).2.hash =
        some (Sha256.hexDigest [35, 32, b]) := by
  obtain ⟨c, text, htext, hpieces⟩ : ∃ c text, Text.decode? [35, 32, b] = some text ∧
      chunks watchIngestor.limits (String.ofList text) = [c] := by
    rcases hb with rfl | rfl <;> exact ⟨_, _, rfl, rfl⟩
  rw [settle_ok, settleBytes, if_neg hnew, htext]
  simp only [hpieces, settleChunks, chunksYield, batches, List.drop_nil, List.take_nil, yield]
  exact ⟨rfl, rfl⟩

theorem read_twinWorld : Files.read twinWorld.files (twinPath 254) = .ok [35, 32, 65] ∧
    Files.read twinWorld.files (twinPath 255) = .ok [35, 32, 66] := by
  decide +kernel

theorem hexDigest_headings_ne : Sha256.hexDigest [35, 32, 65] ≠ Sha256.hexDigest [35, 32, 66] := by
  decide +kernel

/-- A file with such a heading is processed in its turn. -/
theorem processed_of_turn {b : UInt8} {k : String} (hb : b = 65 ∨ b = 66)
    (hw : w.memory.WellFormed)
    (hturn : Ends (Answers (.steady emptyVectors)) (watchIngestor.processFile x.path).run w
      x.outcome w₁)
    (hread : Files.read w.files x.path = .ok [35, 32, b]) (hk : Path.text x.path = k)
    (hnew : (w.memory.holding k).hash ≠ some (Sha256.hexDigest [35, 32, b])) :
    x.outcome = .ok (.processed 1) ∧
      (w₁.memory.holding k).hash = some (Sha256.hexDigest [35, 32, b]) := by
  obtain ⟨hnext, -, -⟩ := of_turn hw hturn
  rw [next, hread, hk] at hnext
  obtain ⟨houtcome, hhash⟩ := settle_heading (p := x.path) hb hnew
  rw [hnext] at houtcome hhash
  exact ⟨houtcome, hhash⟩

/-- In a pass over the two files both are processed, and the document is that of the second one. -/
theorem twins_processed (hfiles : w.files = twinWorld.files) (hw : w.memory.WellFormed)
    (hnew : (w.memory.holding "./a\uFFFD.md").hash ≠ some (Sha256.hexDigest [35, 32, 65]))
    (h : Pass (.steady emptyVectors) watchIngestor w xs r w₁) :
    (∃ t u, xs = [⟨twinPath 254, t, .ok (.processed 1)⟩, ⟨twinPath 255, u, .ok (.processed 1)⟩]) ∧
      (w₁.memory.holding "./a\uFFFD.md").hash = some (Sha256.hexDigest [35, 32, 66]) := by
  have hscan := h.scan_eq
  rw [hfiles, scan_twinWorld] at hscan
  have hpaths : xs.map Turn.path = [twinPath 254, twinPath 255] := (Except.ok.inj hscan).symm
  obtain ⟨x, ys, rfl, hx, hys⟩ := List.map_eq_cons_iff.mp hpaths
  obtain ⟨y, zs, rfl, hy, hzs⟩ := List.map_eq_cons_iff.mp hys
  obtain rfl := List.map_eq_nil_iff.mp hzs
  obtain ⟨w₂, hfirst, hsecond⟩ : ∃ w₂,
      Ends (Answers (.steady emptyVectors)) (watchIngestor.processFile x.path).run w x.outcome w₂ ∧
      Ends (Answers (.steady emptyVectors)) (watchIngestor.processFile y.path).run w₂ y.outcome
        w₁ := by
    obtain _ | ⟨hfirst, hrest⟩ := h.takes
    obtain _ | ⟨hsecond, hnil⟩ := hrest
    cases hnil
    exact ⟨_, hfirst, hsecond⟩
  have hread₁ : Files.read w.files x.path = .ok [35, 32, 65] := by
    rw [hfiles, hx, read_twinWorld.1]
  have hread₂ : Files.read w₂.files y.path = .ok [35, 32, 66] := by
    rw [files_eq_of_ends hfirst, hfiles, hy, read_twinWorld.2]
  obtain ⟨hout₁, hhash₁⟩ := processed_of_turn (Or.inl rfl) hw hfirst hread₁
    (hx ▸ text_twinPath (Or.inl rfl)) hnew
  -- the second file finds the hash of the first one
  have hnew₂ : (w₂.memory.holding "./a\uFFFD.md").hash ≠ some (Sha256.hexDigest [35, 32, 66]) := by
    rw [hhash₁]
    exact fun heq => hexDigest_headings_ne (Option.some.inj heq)
  obtain ⟨hout₂, hhash₂⟩ := processed_of_turn (Or.inr rfl) (wellFormed_of_ends hfirst hw) hsecond
    hread₂ (hy ▸ text_twinPath (Or.inr rfl)) hnew₂
  refine ⟨⟨x.trace, y.trace, ?_⟩, hhash₂⟩
  exact congrArg₂ (fun x y => [x, y]) (congrArg₂ (Turn.mk · x.trace ·) hx hout₁)
    (congrArg₂ (Turn.mk · y.trace ·) hy hout₂)

/-- **Another file with the text of its path undoes what is done for a file:** here it is the last
word on the document in the one world, and missing from the other. -/
theorem not_always_agree :
    ¬ ∀ (f : List String → Except EmbeddingError (List Embedding)) (g : Ingestor) (w v : World)
      (ps qs : List Path) (q : Path), w.memory.WellFormed → v.memory.WellFormed →
      g.scanner.scan w.files = .ok ps → g.scanner.scan v.files = .ok qs → q ∈ ps → q ∈ qs →
      Files.read w.files q = Files.read v.files q →
      w.memory.holding (Path.text q) = v.memory.holding (Path.text q) →
      ∀ xs r w₁ ys r' v₁, Pass (.steady f) g w xs r w₁ → Pass (.steady f) g v ys r' v₁ →
        w₁.memory.holding (Path.text q) = v₁.memory.holding (Path.text q) := by
  intro hagree
  let v : World := ⟨Files.flatDisk [(twin 254, .file [35, 32, 65] 0)], {}⟩
  have hscan : watchIngestor.scanner.scan v.files = .ok [twinPath 254] := by
    rw [scan_watchIngestor (by simp [Files.Entry.IsFile])]
    simp only [List.map_cons, List.map_nil, List.mergeSort_singleton, twinPath]
  have hread : Files.read v.files (twinPath 254) = .ok [35, 32, 65] := by decide +kernel
  have hempty : (({} : Memory).holding "./a\uFFFD.md").hash ≠
      some (Sha256.hexDigest [35, 32, 65]) := (Option.some_ne_none _).symm
  obtain ⟨xs, r, w₁, hpass⟩ := exists_pass (exists_embeds_steady emptyVectors) scan_twinWorld
  obtain ⟨ys, r', v₁, hpass'⟩ := exists_pass (exists_embeds_steady emptyVectors) hscan
  have hsame := hagree emptyVectors watchIngestor twinWorld v _ _ (twinPath 254) wellFormed_empty
    wellFormed_empty scan_twinWorld hscan List.mem_cons_self List.mem_cons_self
    (read_twinWorld.1.trans hread.symm) rfl xs r w₁ ys r' v₁ hpass hpass'
  -- alone the file leaves its own hash
  have hpaths : ys.map Turn.path = [twinPath 254] :=
    Except.ok.inj (hpass'.scan_eq.symm.trans hscan)
  have hone : Path.Apart (ys.map Turn.path) (twinPath 254) := by
    rw [hpaths]
    exact fun p hp _ => List.mem_singleton.mp hp
  obtain ⟨-, hafter⟩ := hpass'.takes.of_mem hone wellFormed_empty (hpaths ▸ List.mem_cons_self)
  rw [next, hread, text_twinPath (Or.inl rfl)] at hafter
  have hhash := (settle_heading (p := twinPath 254) (Or.inl rfl) hempty).2
  rw [← hafter, ← text_twinPath (Or.inl rfl), ← hsame, text_twinPath (Or.inl rfl),
    (twins_processed rfl wellFormed_empty hempty hpass).2] at hhash
  exact hexDigest_headings_ne (Option.some.inj hhash).symm

/-! ## A pass and another -/

theorem record_repeated (r : IngestReport) (o : Except IngestError FileOutcome) :
    r.repeated.record (again o) = (r.record o).repeated := by
  rcases o with e | n | _
  · rfl
  · simp only [again, Except.map, IngestReport.record, IngestReport.repeated]
    rw [Nat.add_right_comm]
  · rfl

/-- Outcomes that are those of files that are taken up again make up the report of the next pass. -/
theorem foldl_record_repeated (os : List (Except IngestError FileOutcome)) (r : IngestReport) :
    (os.map again).foldl IngestReport.record r.repeated =
      (os.foldl IngestReport.record r).repeated := by
  induction os generalizing r with
  | nil => rfl
  | cons o os ih => rw [List.map_cons, List.foldl_cons, List.foldl_cons, record_repeated, ih]

theorem reportOf_map_again (os : List (Except IngestError FileOutcome)) :
    reportOf (os.map again) = (reportOf os).repeated :=
  foldl_record_repeated os {}

/-- After a pass every path that has had a turn is settled, if no other has its text. -/
theorem Pass.settled (h : Pass (.steady f) g w xs r w₁) (hw : w.memory.WellFormed) (hx : x ∈ xs)
    (hone : Path.Apart (xs.map Turn.path) x.path) : g.Settled f w₁ x.path := by
  rw [Settled, h.takes.next_of_mem hone hw hx rfl]

/-- The next pass has the same files. -/
theorem Pass.paths_again (h : Pass F g w xs r w₁) (h' : Pass F g w₁ ys r' w₂) :
    ys.map Turn.path = xs.map Turn.path := by
  have hscan := h'.scan_eq
  rw [h.files_eq, h.scan_eq] at hscan
  exact (Except.ok.inj hscan).symm

/-- In the next pass a file ends as it has to. -/
theorem Pass.outcome_again (h : Pass (.steady f) g w xs r w₁) (hw : w.memory.WellFormed)
    (h' : Pass (.steady f) g w₁ ys r' w₂) (hx : x ∈ xs)
    (hone : Path.Apart (xs.map Turn.path) x.path) (hy : y ∈ ys) (hpath : y.path = x.path) :
    y.outcome = again x.outcome := by
  have hone' : Path.Apart (ys.map Turn.path) x.path := h.paths_again h' ▸ hone
  obtain ⟨-, houtcomes⟩ :=
    h'.takes.of_settled hone' (h.wellFormed hw) (h.settled hw hx hone)
  rw [houtcomes y hy hpath, h.takes.next_of_mem hone hw hx rfl]

theorem Pass.outcomes_again (h : Pass (.steady f) g w xs r w₁) (hw : w.memory.WellFormed)
    (h' : Pass (.steady f) g w₁ ys r' w₂)
    (hone : ∀ p ∈ xs.map Turn.path, Path.Apart (xs.map Turn.path) p) :
    ys.map Turn.outcome = (xs.map Turn.outcome).map again := by
  have hpaths := h.paths_again h'
  have hfirst : ∀ x ∈ xs, (g.next f w₁ x.path).1 = again x.outcome := by
    intro x hx
    rw [h.takes.next_of_mem (hone _ (List.mem_map_of_mem hx)) hw hx rfl]
  have hsecond : ∀ y ∈ ys, y.outcome = (g.next f w₁ y.path).1 := by
    intro y hy
    have hy' : y.path ∈ xs.map Turn.path := hpaths ▸ List.mem_map_of_mem hy
    obtain ⟨x, hx, hpath⟩ := List.mem_map.mp hy'
    rw [h.outcome_again hw h' hx (hone _ (List.mem_map_of_mem hx)) hy hpath.symm, ← hfirst x hx,
      hpath]
  calc ys.map Turn.outcome
      = (ys.map Turn.path).map fun p => (g.next f w₁ p).1 := by
        rw [List.map_map]
        exact List.map_congr_left hsecond
    _ = (xs.map Turn.path).map fun p => (g.next f w₁ p).1 := by rw [hpaths]
    _ = (xs.map Turn.outcome).map again := by
        rw [List.map_map, List.map_map]
        exact List.map_congr_left hfirst

/-- What is held of a text is what it was, unless several files have it. -/
theorem Pass.holding_again (h : Pass (.steady f) g w xs r w₁) (hw : w.memory.WellFormed)
    (h' : Pass (.steady f) g w₁ ys r' w₂) {k : String}
    (hone : ∀ p ∈ xs.map Turn.path, Path.text p = k → Path.Apart (xs.map Turn.path) p) :
    w₂.memory.holding k = w₁.memory.holding k := by
  by_cases hk : ∃ x ∈ xs, Path.text x.path = k
  · obtain ⟨x, hx, rfl⟩ := hk
    have hx' := hone x.path (List.mem_map_of_mem hx) rfl
    exact (h'.takes.of_settled (h.paths_again h' ▸ hx') (h.wellFormed hw) (h.settled hw hx hx')).1
  · push Not at hk
    refine h'.takes.holding_of_not_mem (h.wellFormed hw) fun y hy => ?_
    have hy' : y.path ∈ xs.map Turn.path := h.paths_again h' ▸ List.mem_map_of_mem hy
    obtain ⟨x, hx, hpath⟩ := List.mem_map.mp hy'
    exact hpath ▸ hk x hx

/-- A file that is skipped is read, and its hash is asked for. -/
theorem Course.eq_of_skipped {path : Path} {t : List (Exchange Work.interface)}
    (h : Course g path t (.ok .skipped)) :
    ∃ bytes, t = [.read path (.ok bytes),
      .stored (.documentHash (Path.text path)) (.ok (some (Sha256.hexDigest bytes)))] := by
  cases h with
  | unchanged bytes => exact ⟨bytes, rfl⟩

/-- **A second pass changes nothing.** Say that the files of a world can be listed. Then there is a
pass over them, and after any such pass there is another, with the same files. If no two of them
have paths with one text, it reports that all that were processed or skipped are skipped, that those
that failed fail, and that no chunks are written. Of a file that has not failed in the first pass,
and has the text of its path for itself, it asks no more than its bytes and its hash, so nothing is
written for it and nothing embedded. And what the store holds of any text that no two files have,
title, hash and passages in order, is what it held before. -/
theorem pass_again (hw : w.memory.WellFormed) (hscan : g.scanner.scan w.files = .ok ps) :
    (∃ xs r w₁, Pass (.steady f) g w xs r w₁) ∧
      ∀ xs r w₁, Pass (.steady f) g w xs r w₁ →
        (∃ ys r' w₂, Pass (.steady f) g w₁ ys r' w₂) ∧
        ∀ ys r' w₂, Pass (.steady f) g w₁ ys r' w₂ →
          xs.map Turn.path = ps ∧ ys.map Turn.path = ps ∧
          ((∀ p ∈ ps, Path.Apart ps p) → r' = ⟨0, r.processed + r.skipped, r.failed, 0⟩) ∧
          (∀ x ∈ xs, Path.Apart ps x.path → ∀ y ∈ ys, y.path = x.path → ∀ a, x.outcome = .ok a →
            ∃ bytes, y.trace = [.read x.path (.ok bytes),
              .stored (.documentHash (Path.text x.path)) (.ok (some (Sha256.hexDigest bytes)))]) ∧
          ∀ k, (∀ p ∈ ps, Path.text p = k → Path.Apart ps p) →
            w₂.memory.holding k = w₁.memory.holding k := by
  refine ⟨exists_pass (exists_embeds_steady f) hscan, fun xs r w₁ h => ⟨?_, ?_⟩⟩
  · rw [← h.files_eq] at hscan
    exact exists_pass (exists_embeds_steady f) hscan
  · intro ys r' w₂ h'
    obtain rfl : ps = xs.map Turn.path := Except.ok.inj (hscan.symm.trans h.scan_eq)
    refine ⟨rfl, h.paths_again h', fun hone => ?_, ?_, fun k hk => h.holding_again hw h' hk⟩
    · rw [h'.report_eq, h.outcomes_again hw h' hone, reportOf_map_again, ← h.report_eq]
      rfl
    · intro x hx hone y hy hpath a ha
      have hcourse := course_of_traces (h'.turns y hy)
      rw [h.outcome_again hw h' hx hone hy hpath, ha, hpath] at hcourse
      exact hcourse.eq_of_skipped

/-- In the sample world the one file is processed. -/
theorem next_sampleWorld :
    (watchIngestor.next emptyVectors sampleWorld samplePath).1 = .ok (.processed 1) := by
  have hread : Files.read sampleWorld.files samplePath = .ok [35, 32, 65] := by decide +kernel
  rw [next, hread]
  exact (settle_heading (Or.inl rfl) (Option.some_ne_none _).symm).1

/-- The file of the sample world is processed in the first pass and skipped in the second, which
leaves what is held of it. -/
theorem pass_again_sampleWorld :
    ∃ xs r w₁ ys r' w₂, Pass (.steady emptyVectors) watchIngestor sampleWorld xs r w₁ ∧
      Pass (.steady emptyVectors) watchIngestor w₁ ys r' w₂ ∧
      r.processed = 1 ∧ r' = ⟨0, 1, 0, 0⟩ ∧
      w₂.memory.holding "./a.md" = w₁.memory.holding "./a.md" := by
  obtain ⟨⟨xs, r, w₁, h⟩, hagain⟩ := pass_again (f := emptyVectors) wellFormed_empty scan_sampleWorld
  obtain ⟨⟨ys, r', w₂, h'⟩, hsecond⟩ := hagain xs r w₁ h
  obtain ⟨hpaths, -, hreport, -, hholding⟩ := hsecond ys r' w₂ h'
  have hone : ∀ p ∈ [samplePath], Path.Apart [samplePath] p := fun p hp q hq _ =>
    (List.mem_singleton.mp hq).trans (List.mem_singleton.mp hp).symm
  have hmem : samplePath ∈ xs.map Turn.path := hpaths ▸ List.mem_cons_self
  have houtcome := (h.takes.of_mem (hpaths ▸ hone _ List.mem_cons_self) wellFormed_empty hmem).1
  rw [next_sampleWorld] at houtcome
  -- the one turn is that of the file
  obtain ⟨x, rest, rfl, hx, hrest⟩ := List.map_eq_cons_iff.mp hpaths
  obtain rfl := List.map_eq_nil_iff.mp hrest
  rw [← hx, outcomeOf_cons_self] at houtcome
  have hr : r = ⟨1, 0, 0, 1⟩ := by
    rw [h.report_eq, List.map_cons, Option.some.inj houtcome]
    rfl
  subst hr
  exact ⟨_, _, w₁, ys, r', w₂, h, h', rfl, hreport hone, hholding _ fun p hp _ => hone p hp⟩

/-- **Files with one text are processed again in every pass,** since each finds the hash of the
other. -/
theorem not_always_repeated :
    ¬ ∀ (f : List String → Except EmbeddingError (List Embedding)) (g : Ingestor) (w : World)
      (ps : List Path), w.memory.WellFormed → g.scanner.scan w.files = .ok ps →
      ∀ xs r w₁ ys r' w₂, Pass (.steady f) g w xs r w₁ → Pass (.steady f) g w₁ ys r' w₂ →
        r' = ⟨0, r.processed + r.skipped, r.failed, 0⟩ := by
  intro hrepeated
  obtain ⟨xs, r, w₁, h⟩ := exists_pass (exists_embeds_steady emptyVectors) scan_twinWorld
  have hscan : watchIngestor.scanner.scan w₁.files = .ok [twinPath 254, twinPath 255] := by
    rw [h.files_eq, scan_twinWorld]
  obtain ⟨ys, r', w₂, h'⟩ := exists_pass (exists_embeds_steady emptyVectors) hscan
  obtain ⟨-, hhash⟩ := twins_processed rfl wellFormed_empty (Option.some_ne_none _).symm h
  have hnew : (w₁.memory.holding "./a\uFFFD.md").hash ≠ some (Sha256.hexDigest [35, 32, 65]) := by
    rw [hhash]
    exact fun heq => hexDigest_headings_ne (Option.some.inj heq).symm
  obtain ⟨⟨t, u, rfl⟩, -⟩ := twins_processed h.files_eq (h.wellFormed wellFormed_empty) hnew h'
  have hnone := hrepeated emptyVectors watchIngestor twinWorld _ wellFormed_empty scan_twinWorld
    _ _ _ _ _ _ h h'
  rw [h'.report_eq] at hnone
  cases hnone

end Ingestor

end MarkdownIndex
