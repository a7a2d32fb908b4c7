import MarkdownIndex.Proofs.Files.Spelling
import MarkdownIndex.Proofs.Ingest.Exit

/-!
# Spellings of a file: one document for each

A scanner spells every file in one way, and a store knows documents by the texts of their paths,
which are different for different spellings. So a file that is named twice in one spelling is one
document, and a file that is named in two spellings of one path is two.

* `Fate`, `fate_of_ends` — what becomes of a file when nothing goes wrong around it.
* `Keeps` — a store holds the one document of some contents under a path.
* `outcome_by_spelling` — the main result: a file that has been processed is ingested again, in this
  spelling or in another.
* `exists_processed_twice` — a file that is processed in two spellings.
-/

namespace MarkdownIndex

open Text Memory World Program

/-! ## What has been answered -/

namespace World

variable {F : Faults} {w w' : World} {t : List (Exchange Work.interface)} {path : Path}

/-- To the store, a world is surroundings of which only the store matters. -/
theorem serves_of_answers {c : Work.interface.Call} {r : Work.interface.Reply c}
    (h : Answers F w c r w') : Serves F.refuses w.memory c r w'.memory := by
  cases h with
  | host _ now c => exact Serves.host _ c _
  | store _ now c => exact Serves.store _ now c
  | refused _ c f h => exact Serves.refused _ c f h
  | embedded _ texts r h => exact Serves.embedded _ texts r

theorem serves_of_gives (h : Gives (Answers F) w t w') :
    Gives (Serves F.refuses) w.memory t w'.memory :=
  h.map World.memory serves_of_answers

/-- Every answer of a trace has been given with the files as they are. -/
theorem answers_of_mem (h : Gives (Answers F) w t w') {x : Exchange Work.interface} (hx : x ∈ t) :
    ∃ w₁ w₂, w₁.files = w.files ∧ Answers F w₁ x.call x.reply w₂ := by
  obtain ⟨u, v, rfl⟩ := List.append_of_mem hx
  obtain ⟨w₁, hbefore, hrest⟩ := gives_append.mp h
  obtain ⟨w₂, hgives, -⟩ := gives_cons.mp hrest
  refine ⟨w₁, w₂, hbefore.keeps (P := fun v => v.files = w.files) ?_ rfl, hgives⟩
  rintro ⟨c, r⟩ - v v' hv hy
  cases hy with
  | host => exact hv
  | store => exact hv
  | refused => exact hv
  | embedded => exact hv

theorem read_of_mem (h : Gives (Answers F) w t w') {b : Except Files.FileError (List UInt8)}
    (hb : .read path b ∈ t) : Files.read w.files path = b := by
  obtain ⟨w₁, w₂, hfiles, hanswer⟩ := answers_of_mem h hb
  cases hanswer with
  | host _ now _ =>
    rw [← hfiles]
    rfl

/-- Where nothing goes wrong, the store refuses nothing. -/
theorem not_refused_of_gives (h : Gives (Answers Faults.none) w t w') {c : Store.Call}
    {f : Failure} : .stored c (.error f) ∉ t := by
  intro hmem
  obtain ⟨w₁, w₂, -, hanswer⟩ := answers_of_mem h hmem
  cases hanswer with
  | refused _ _ _ hrefuses => exact hrefuses

/-- And there are as many vectors as texts. -/
theorem embedded_of_gives (h : Gives (Answers Faults.none) w t w') {texts : List String}
    {r : Except EmbeddingError (List Embedding)} (hr : .embedded texts r ∈ t) :
    ∃ vs, vs.length = texts.length ∧ r = .ok vs := by
  obtain ⟨w₁, w₂, -, hanswer⟩ := answers_of_mem h hr
  cases hanswer with
  | embedded _ _ _ hembeds => exact hembeds

end World

namespace Ingestor

variable {g : Ingestor} {path p q : Path} {w w' w₁ w₂ : World} {n : Nat}
variable {t : List (Exchange Work.interface)} {o : Except IngestError FileOutcome}

/-! ## Files when nothing goes wrong -/

/-- A file that is processed has chunks. -/
theorem pos_of_traces_processed (h : Traces (g.processFile path).run t (.ok (.processed n))) :
    0 < n := by
  rcases traces_run_bind.mp h with ⟨bytes, u, v, rfl, -, hrest⟩ | ⟨e, -, he⟩
  · rcases of_traces_stored_bind hrest with ⟨known, w, rfl, hknown⟩ | ⟨f, -, he⟩
    · split at hknown
      · cases (traces_run_pure.mp hknown).1
      · rw [processBytes] at hknown
        split at hknown
        · cases (traces_run_throw.mp hknown).1
        · simp only at hknown
          split at hknown
          · cases (traces_run_throw.mp hknown).1
          · rename_i hne
            obtain ⟨_, _, -, hrest⟩ := of_traces_host_bind (c := .modified path) hknown
            obtain ⟨_, _, -, hwrite⟩ := of_traces_host_bind (c := .now) hrest
            rcases of_traces_write hwrite with ⟨f, -, he⟩ | ⟨id, v, -, ⟨-, ho⟩ |
              ⟨_, _, _, -, -, he⟩⟩
            · cases he
            · cases ho
              exact List.length_pos_iff.mpr hne
            · cases he
    · cases he
  · cases he

/-- What becomes of a file when nothing goes wrong around it. -/
inductive Fate (g : Ingestor) (path : Path) (w : World) :
    Except IngestError FileOutcome → World → Prop
  /-- it cannot be read -/
  | unread (reason : Files.FileError) (hread : Files.read w.files path = .error reason) :
    Fate g path w (.error (.read path reason)) w
  /-- it is no text, or one without chunks -/
  | unfit (e : IngestError) {bytes : List UInt8} (hread : Files.read w.files path = .ok bytes)
    (hnew : w.memory.hash? (Path.text path) ≠ some (Sha256.hexDigest bytes))
    (hunfit : ∀ text, decode? bytes = some text → chunks g.limits (String.ofList text) = []) :
    Fate g path w (.error e) w
  /-- the store has its hash -/
  | skipped {bytes : List UInt8} (hread : Files.read w.files path = .ok bytes)
    (hhash : w.memory.hash? (Path.text path) = some (Sha256.hexDigest bytes)) :
    Fate g path w (.ok .skipped) w
  /-- its document and all its chunks are written -/
  | processed {bytes : List UInt8} {text : List Char} {d : NewDocument} {vs : List Embedding}
    {s : Memory} (hread : Files.read w.files path = .ok bytes)
    (hnew : w.memory.hash? (Path.text path) ≠ some (Sha256.hexDigest bytes))
    (hd : Describes path bytes text d) (hne : chunks g.limits (String.ofList text) ≠ [])
    (hlength : vs.length = (chunks g.limits (String.ofList text)).length)
    (hleft : Rewritten (Path.text path) ⟨some d.title, some (Sha256.hexDigest bytes),
      List.zipWith Chunk.passage (chunks g.limits (String.ofList text)) vs⟩ w.memory s) :
    Fate g path w (.ok (.processed (chunks g.limits (String.ofList text)).length))
      { w with memory := s }

/-- Where nothing goes wrong, nothing makes an end of adding chunks. -/
theorem not_stop_of_gives {id : Int} {size k : Nat} {cs : List Chunk}
    {x : Exchange Work.interface} {e : IngestError} (h : Gives (Answers Faults.none) w t w')
    (hx : x ∈ t) : ¬ Stop id size cs k x e := by
  intro hstop
  cases hstop with
  | embedding reason hk hbatch =>
    obtain ⟨vs, -, hvs⟩ := embedded_of_gives h hx
    cases hvs
  | vectorCount hk hbatch hne =>
    obtain ⟨vs, hlength, hvs⟩ := embedded_of_gives h hx
    rw [Except.ok.inj hvs, hlength, List.length_map] at hne
    exact hne rfl
  | store v f hc => exact not_refused_of_gives h hx

/-- **What becomes of a file when nothing goes wrong around it.** -/
theorem fate_of_ends (hs : w.memory.WellFormed)
    (h : Ends (Answers Faults.none) (g.processFile path).run w o w') : Fate g path w o w' := by
  obtain ⟨t, htraces, hgives⟩ := ends_iff_traces.mp h
  have hserves := serves_of_gives hgives
  have hcourse := course_of_traces htraces
  have hexit := exit_of_traces hs htraces hserves
  generalize t.filter Exchange.clears = clears at hexit
  obtain ⟨files, s⟩ := w'
  obtain rfl : files = w.files := files_eq_of_ends h
  -- a file is skipped if and only if the store has its hash
  have hnew : ∀ {bytes : List UInt8}, .read path (.ok bytes) ∈ t → o ≠ .ok .skipped →
      w.memory.hash? (Path.text path) ≠ some (Sha256.hexDigest bytes) := fun hread ho =>
    mt (hcourse.skipped_iff hserves hread not_false).mpr ho
  cases hexit with
  | unread reason hread hnone => exact Fate.unread reason (read_of_mem hgives hread)
  | unknown f hknown hnone => exact absurd hknown (not_refused_of_gives hgives)
  | unchanged hread hhash hnone => exact Fate.skipped (read_of_mem hgives hread) hhash
  | notText hread htext hnone =>
    refine Fate.unfit _ (read_of_mem hgives hread) (hnew hread fun h => nomatch h) ?_
    intro text htext'
    rw [htext] at htext'
    cases htext'
  | @empty bytes text hread htext hblank hnone =>
    refine Fate.unfit _ (read_of_mem hgives hread) (hnew hread fun h => nomatch h) ?_
    intro text' htext'
    obtain rfl : text = text' := Option.some.inj (htext.symm.trans htext')
    rwa [chunks_eq_nil_iff, String.toList_ofList]
  | unwritten d f hupsert hnone => exact absurd hupsert (not_refused_of_gives hgives)
  | processed hread hd hupsert hcs hlength hvs hleft =>
    subst hcs
    exact Fate.processed (read_of_mem hgives hread) (hnew hread fun h => nomatch Except.ok.inj h)
      hd (List.length_pos_iff.mp (pos_of_traces_processed htraces)) hlength hleft
  | undeleted f hread hd hupsert hdelete hleft =>
    exact absurd hdelete (not_refused_of_gives hgives)
  | stopped hread hd hupsert hcs hlength hvs hinserted hstop hindex hleft =>
    exact absurd hstop.2 (not_stop_of_gives hgives hstop.1)

end Ingestor

/-! ## Documents of some contents -/

namespace Memory

variable {s s' : Memory} {path p q : String} {bytes : List UInt8} {cs : List Chunk}

/-- A document is the one that a store has under a path, with the hash of some contents, and some
chunks are all that it has. -/
structure Keeps (s : Memory) (path : String) (bytes : List UInt8) (cs : List Chunk)
    (d : StoredDocument) : Prop where
  /-- it is in the store -/
  mem : d ∈ s.documents
  /-- it has the path -/
  path_eq : d.path = path
  /-- no other document has the path -/
  only : ∀ e ∈ s.documents, e.path = path → e = d
  /-- it has the hash of the contents -/
  hash_eq : d.metadata.fileHash = some (Sha256.hexDigest bytes)
  /-- its rows are the chunks, in order -/
  rows_eq : s.rows d.id = cs.map Chunk.row

theorem rows_eq_map_passages (s : Memory) (id : Int) :
    s.rows id = (s.passages id).map fun x => (x.content, x.metadata) := by
  rw [rows, passages, List.map_map]
  rfl

theorem map_zipWith_passage {vs : List Embedding} (h : vs.length = cs.length) :
    (List.zipWith Chunk.passage cs vs).map (fun x => (x.content, x.metadata)) =
      cs.map Chunk.row := by
  rw [List.map_zipWith, ← List.map_uncurry_zip_eq_zipWith]
  conv_rhs => rw [← List.map_fst_zip (Nat.le_of_eq h.symm), List.map_map]
  rfl

/-- What is held of a path says which document it has. -/
theorem exists_keeps {title : Option String} {vs : List Embedding} (hs : s.WellFormed)
    (hlength : vs.length = cs.length)
    (h : s.holding path = ⟨title, some (Sha256.hexDigest bytes),
      List.zipWith Chunk.passage cs vs⟩) : ∃ d, s.Keeps path bytes cs d := by
  rcases hd : s.document? path with _ | d
  · rw [holding_of_none hd] at h
    cases congrArg Holding.hash h
  · rw [holding_of_document? hd] at h
    obtain ⟨hmem, hpath⟩ := mem_of_document? hd
    refine ⟨d, hmem, hpath, fun e he hepath => hs.eq_of_path he hmem (hepath.trans hpath.symm),
      congrArg Holding.hash h, ?_⟩
    have hpassages : s.passages d.id = List.zipWith Chunk.passage cs vs :=
      congrArg Holding.passages h
    rw [rows_eq_map_passages, hpassages, map_zipWith_passage hlength]

theorem Rewritten.hash?_of_ne {h : Holding} (hs : Rewritten path h s s') (hne : q ≠ path) :
    s'.hash? q = s.hash? q := by
  rw [← hash_holding, hs.others q hne, hash_holding]

/-- Documents with different paths are different ones. -/
theorem Keeps.id_ne {d e : StoredDocument} {ds : List Chunk} {bytes' : List UInt8}
    (hs : s.WellFormed) (hd : s.Keeps p bytes cs d) (he : s.Keeps q bytes' ds e) (hne : q ≠ p) :
    d.id ≠ e.id := fun hid =>
  hne (he.path_eq ▸ hd.path_eq ▸ congrArg StoredDocument.path
    (hs.eq_of_id he.mem hd.mem hid.symm))

end Memory

/-! ## The main result -/

namespace Ingestor

variable {g : Ingestor} {p q : Path} {w w' w₁ : World} {n : Nat}

section Fate

variable {bytes : List UInt8} {text : List Char} {path : Path} {key : String}
variable {o : Except IngestError FileOutcome}

theorem Fate.of_unread {reason : Files.FileError} (h : Fate g path w o w')
    (hread : Files.read w.files path = .error reason) :
    o = .error (.read path reason) ∧ w' = w := by
  cases h with
  | unread reason' hread' =>
    rw [Except.error.inj (hread.symm.trans hread')]
    exact ⟨rfl, rfl⟩
  | unfit e hread' => cases hread.symm.trans hread'
  | skipped hread' => cases hread.symm.trans hread'
  | processed hread' => cases hread.symm.trans hread'

/-- A file whose hash the store has is skipped. -/
theorem Fate.of_known (h : Fate g path w o w') (hread : Files.read w.files path = .ok bytes)
    (hhash : w.memory.hash? (Path.text path) = some (Sha256.hexDigest bytes)) :
    o = .ok .skipped ∧ w' = w := by
  cases h with
  | unread reason hread' => cases hread.symm.trans hread'
  | unfit e hread' hnew =>
    obtain rfl := Except.ok.inj (hread.symm.trans hread')
    exact absurd hhash hnew
  | skipped => exact ⟨rfl, rfl⟩
  | processed hread' hnew =>
    obtain rfl := Except.ok.inj (hread.symm.trans hread')
    exact absurd hhash hnew

/-- A file with chunks whose hash the store does not have is processed. -/
theorem Fate.of_new (h : Fate g path w o w') (hread : Files.read w.files path = .ok bytes)
    (hhash : w.memory.hash? (Path.text path) ≠ some (Sha256.hexDigest bytes))
    (htext : decode? bytes = some text) (hne : chunks g.limits (String.ofList text) ≠ []) :
    o = .ok (.processed (chunks g.limits (String.ofList text)).length) ∧
      ∃ title vs, vs.length = (chunks g.limits (String.ofList text)).length ∧
        Rewritten (Path.text path) ⟨title, some (Sha256.hexDigest bytes),
          List.zipWith Chunk.passage (chunks g.limits (String.ofList text)) vs⟩
          w.memory w'.memory := by
  cases h with
  | unread reason hread' => cases hread.symm.trans hread'
  | unfit e hread' hnew hunfit =>
    obtain rfl := Except.ok.inj (hread.symm.trans hread')
    exact absurd (hunfit text htext) hne
  | skipped hread' hhash' =>
    obtain rfl := Except.ok.inj (hread.symm.trans hread')
    exact absurd hhash' hhash
  | processed hread' hnew hd _ hlength hleft =>
    obtain rfl := Except.ok.inj (hread.symm.trans hread')
    obtain rfl := Option.some.inj (htext.symm.trans hd.decoded)
    exact ⟨rfl, _, _, hlength, hleft⟩

/-- What is held of other paths stays. -/
theorem Fate.holding_of_ne (h : Fate g path w o w') (hne : key ≠ Path.text path) :
    w'.memory.holding key = w.memory.holding key := by
  cases h with
  | processed _ _ _ _ _ hleft => exact hleft.others key hne
  | _ => rfl

end Fate

/-- Without failures every file ends in some way. -/
theorem exists_ends_none (g : Ingestor) (path : Path) (w : World) :
    ∃ o w', Ends (Answers Faults.none) (g.processFile path).run w o w' :=
  World.exists_ends (fun texts => by
    obtain ⟨vs, -, hvs⟩ := Faults.obliging_none texts
    exact ⟨_, hvs⟩) _ w

/-- **A path is a document for each of its spellings.** When a file has been processed, and is
ingested again as it is, then in the same spelling it is skipped, and the store has one document
with one set of chunks. A scanner has no other spelling. In another spelling of the path the file is
one that the store knows by that spelling only: if it can be read, its bytes are the same, and it is
skipped if the store had their hash under that spelling before; else it is processed once more, and
there are two documents with the same chunks. -/
theorem outcome_by_spelling (hs : w.memory.WellFormed) (hsame : Path.same p q = true)
    (hp : Ends (Answers Faults.none) (g.processFile p).run w (.ok (.processed n)) w₁) :
    (∀ sc : Scanner, sc.Spells p → sc.Spells q → q = p) ∧
    (∃ o w₂, Ends (Answers Faults.none) (g.processFile q).run w₁ o w₂) ∧
    ∃ bytes text, Files.read w.files p = .ok bytes ∧ decode? bytes = some text ∧
      (chunks g.limits (String.ofList text)).length = n ∧
      ∀ o w₂, Ends (Answers Faults.none) (g.processFile q).run w₁ o w₂ →
        (∃ d, w₂.memory.Keeps (Path.text p) bytes (chunks g.limits (String.ofList text)) d) ∧
        (q = p → o = .ok .skipped ∧ w₂ = w₁) ∧
        (q ≠ p →
          (∀ reason, Files.read w.files q = .error reason →
            o = .error (.read q reason) ∧ w₂ = w₁) ∧
          ∀ bytes', Files.read w.files q = .ok bytes' → bytes' = bytes ∧
            (w.memory.hash? (Path.text q) = some (Sha256.hexDigest bytes) →
              o = .ok .skipped ∧ w₂ = w₁) ∧
            (w.memory.hash? (Path.text q) ≠ some (Sha256.hexDigest bytes) → o = .ok (.processed n) ∧
              ∃ d e, w₂.memory.Keeps (Path.text p) bytes (chunks g.limits (String.ofList text)) d ∧
                w₂.memory.Keeps (Path.text q) bytes (chunks g.limits (String.ofList text)) e ∧
                d.id ≠ e.id)) := by
  have hs₁ := wellFormed_of_ends hp hs
  refine ⟨fun sc hsp hsq => (hsp.eq_of_same hsq hsame).symm, exists_ends_none g q w₁, ?_⟩
  cases fate_of_ends hs hp with
  | @processed bytes text d vs s hread hnew hd hne hlength hleft =>
    refine ⟨bytes, text, hread, hd.decoded, rfl, fun o w₂ hq => ?_⟩
    have hfate := fate_of_ends hs₁ hq
    have hs₂ := wellFormed_of_ends hq hs₁
    have hknown : s.hash? (Path.text p) = some (Sha256.hexDigest bytes) := by
      rw [← hash_holding, hleft.holding_eq]
    rcases eq_or_ne q p with rfl | hqp
    · obtain ⟨rfl, rfl⟩ := hfate.of_known hread hknown
      exact ⟨exists_keeps hs₁ hlength hleft.holding_eq, fun _ => ⟨rfl, rfl⟩,
        fun h => absurd rfl h⟩
    · have hkey : Path.text q ≠ Path.text p := fun h =>
        hqp (Path.eq_of_same_of_text_eq hsame h.symm).symm
      have hheld := (hfate.holding_of_ne hkey.symm).trans hleft.holding_eq
      obtain ⟨d', hd'⟩ := exists_keeps hs₂ hlength hheld
      refine ⟨⟨d', hd'⟩, fun h => absurd h hqp, fun _ => ⟨fun reason h => hfate.of_unread h, ?_⟩⟩
      intro bytes' hread'
      obtain rfl := Files.read_eq_of_same hsame hread hread'
      have hhash : s.hash? (Path.text q) = w.memory.hash? (Path.text q) := hleft.hash?_of_ne hkey
      refine ⟨rfl, fun h => hfate.of_known hread' (hhash.trans h), fun h => ?_⟩
      -- a hash that the store did not have under this spelling it still does not have
      obtain ⟨ho, title, us, hus, hwritten⟩ :=
        hfate.of_new hread' (hhash ▸ h) hd.decoded hne
      obtain ⟨e, he⟩ := exists_keeps hs₂ hus hwritten.holding_eq
      exact ⟨ho, d', e, hd', he, hd'.id_ne hs₂ he hkey⟩

/-! ## A file in two spellings -/

/-- The path of a file in a directory, and the same path with a slash too many. -/
def nestedPaths : Path × Path := (Path.ofText "docs/a.md", Path.ofText "docs//a.md")

/-- A directory with one file, which holds a heading, and an empty store. -/
def nestedWorld : World :=
  ⟨Files.flatDisk [(Path.ofText "docs", .directory [(sampleName, .file [35, 32, 65] 0)])], {}⟩

theorem read_nestedWorld : Files.read nestedWorld.files nestedPaths.1 = .ok [35, 32, 65] ∧
    Files.read nestedWorld.files nestedPaths.2 = .ok [35, 32, 65] := by
  decide +kernel

theorem same_nestedPaths : Path.same nestedPaths.1 nestedPaths.2 = true := by decide +kernel

theorem text_nestedPaths :
    Path.text nestedPaths.1 = "docs/a.md" ∧ Path.text nestedPaths.2 = "docs//a.md" :=
  ⟨Path.text_ofText _, Path.text_ofText _⟩

/-- The file is processed in one spelling, and nothing is known of it in the other. -/
theorem exists_ends_nestedWorld :
    ∃ w, Ends (Answers Faults.none) (sampleIngestor.processFile nestedPaths.1).run nestedWorld
      (.ok (.processed 1)) w ∧ w.memory.hash? (Path.text nestedPaths.2) = none := by
  have hend := exists_ends_processFile (g := sampleIngestor) (w := nestedWorld)
    Faults.obliging_none read_nestedWorld.1 (Option.some_ne_none _).symm decode?_sampleWorld
  rw [chunks_sampleWorld] at hend
  obtain ⟨w, hw⟩ := hend (List.cons_ne_nil _ _)
  have hkey : Path.text nestedPaths.2 ≠ Path.text nestedPaths.1 := by
    rw [text_nestedPaths.1, text_nestedPaths.2]
    decide
  have hheld := (fate_of_ends wellFormed_empty hw).holding_of_ne hkey
  refine ⟨w, hw, ?_⟩
  rw [← hash_holding, hheld]
  rfl

/-- The two spellings are one path, and the file is processed in both, though it has not changed. -/
theorem exists_processed_twice :
    Path.same nestedPaths.1 nestedPaths.2 = true ∧
      ∃ w₁ w₂, Ends (Answers Faults.none) (sampleIngestor.processFile nestedPaths.1).run nestedWorld
          (.ok (.processed 1)) w₁ ∧ w₁.files = nestedWorld.files ∧
        Ends (Answers Faults.none) (sampleIngestor.processFile nestedPaths.2).run w₁
          (.ok (.processed 1)) w₂ := by
  obtain ⟨w₁, hfirst, hnew⟩ := exists_ends_nestedWorld
  have hfiles := files_eq_of_ends hfirst
  have hend := exists_ends_processFile (g := sampleIngestor) (w := w₁) Faults.obliging_none
    (hfiles ▸ read_nestedWorld.2) (hnew ▸ (Option.some_ne_none _).symm) decode?_sampleWorld
  rw [chunks_sampleWorld] at hend
  obtain ⟨w₂, hsecond⟩ := hend (List.cons_ne_nil _ _)
  exact ⟨same_nestedPaths, w₁, w₂, hfirst, hfiles, hsecond⟩

/-- Then the store has two documents with the same chunk. -/
theorem outcome_by_spelling_nested :
    ∃ w₁ w₂, Ends (Answers Faults.none) (sampleIngestor.processFile nestedPaths.2).run w₁
        (.ok (.processed 1)) w₂ ∧
      ∃ d ∈ w₂.memory.documents, ∃ e ∈ w₂.memory.documents, d.path = "docs/a.md" ∧
        e.path = "docs//a.md" ∧ d.id ≠ e.id ∧ w₂.memory.rows d.id = w₂.memory.rows e.id := by
  obtain ⟨w₁, hfirst, -⟩ := exists_ends_nestedWorld
  obtain ⟨-, ⟨o, w₂, hsecond⟩, bytes, text, hread, -, -, hboth⟩ :=
    outcome_by_spelling wellFormed_empty same_nestedPaths hfirst
  obtain rfl := Except.ok.inj (read_nestedWorld.1.symm.trans hread)
  obtain ⟨-, -, hother⟩ := hboth o w₂ hsecond
  obtain ⟨-, -, hnew⟩ := (hother (by decide +kernel)).2 _ read_nestedWorld.2
  obtain ⟨rfl, d, e, hd, he, hid⟩ := hnew (Option.some_ne_none _).symm
  exact ⟨w₁, w₂, hsecond, d, hd.mem, e, he.mem, hd.path_eq.trans text_nestedPaths.1,
    he.path_eq.trans text_nestedPaths.2, hid, hd.rows_eq.trans he.rows_eq.symm⟩

end Ingestor

end MarkdownIndex
