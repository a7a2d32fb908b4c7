import Mathlib.Data.Set.Function
import MarkdownIndex.Proofs.Files.Flat
import MarkdownIndex.Proofs.Files.Text
import MarkdownIndex.Proofs.Ingest

/-!
# Certificates: a stored hash stands for a complete index

The hash of a document is written before its chunks. Yet between the steps of a run it is there only
if the chunks are: what fails half-way takes the hash back.

* `Reachable` — the worlds that runs lead to: files change at will, files are processed one by one
  or all together, and whatever is allowed for goes wrong.
* `Indexes` — a document is that of a text: its rows are the chunks of the text.
* `Sound` — the invariant of runs: a document with a hash is that of contents with this hash.
* `sound_of_reachable` — every world of a run is sound.
* `Current` — the store holds what a file holds; `Sound.exists_current` finds it so after a file
  that has not failed.
* `certified_of_reachable` — the main result.
-/

namespace MarkdownIndex

open Text Memory World Program Ingestor

/-! ## Runs -/

/-- Whatever can be read of the files is among some contents. -/
def ContentsIn (K : Set (List UInt8)) (files : Files.Disk) : Prop :=
  ∀ {path : Path} {bytes : List UInt8}, Files.read files path = .ok bytes → bytes ∈ K

/-- The worlds that runs with an empty store at the start lead to. `K` are the contents that files
have in the course of the run. -/
inductive Reachable (F : Faults) (g : Ingestor) (K : Set (List UInt8)) : World → Prop
  /-- nothing has happened yet -/
  | start (files : Files.Disk) (h : ContentsIn K files) : Reachable F g K ⟨files, {}⟩
  /-- the files have changed in any way -/
  | change {w : World} (hw : Reachable F g K w) (files : Files.Disk) (h : ContentsIn K files) :
    Reachable F g K { w with files := files }
  /-- a file has been processed -/
  | file {w w' : World} (hw : Reachable F g K w) {path : Path}
    {o : Except IngestError FileOutcome}
    (h : Ends (Answers F) (g.processFile path).run w o w') : Reachable F g K w'
  /-- all files have been processed -/
  | all {w w' : World} (hw : Reachable F g K w) {r : Except ScanError IngestReport}
    (h : Ends (Answers F) g.processAll w r w') : Reachable F g K w'

/-! ## The invariant -/

/-- A document is that of a text: it is called after the text or its file, and its rows are the
chunks of the text. -/
structure Indexes (limits : ChunkLimits) (s : Memory) (d : StoredDocument) (text : List Char) :
    Prop where
  /-- the title is that of the text -/
  title_eq : d.title = Markdown.title (String.ofList text) (Path.fileStem (Path.ofText d.path))
  /-- the rows are the chunks, in order -/
  rows_eq : s.rows d.id = (chunks limits (String.ofList text)).map Chunk.row

/-- A hash stands for contents, and the document that has it is that of their text. -/
def Certified (limits : ChunkLimits) (K : Set (List UInt8)) (s : Memory) (d : StoredDocument)
    (hash : String) : Prop :=
  ∃ bytes ∈ K, Sha256.hexDigest bytes = hash ∧
    ∃ text, decode? bytes = some text ∧ Indexes limits s d text

/-- What holds in every world of a run. -/
structure Sound (limits : ChunkLimits) (K : Set (List UInt8)) (w : World) : Prop where
  /-- the contents of the files are among those of the run -/
  contents : ContentsIn K w.files
  /-- the store is well-formed -/
  wellFormed : w.memory.WellFormed
  /-- a hash in the store is certified -/
  certified : ∀ d ∈ w.memory.documents, ∀ h ∈ d.metadata.fileHash,
    Certified limits K w.memory d h

variable {F : Faults} {g : Ingestor} {limits : ChunkLimits} {K : Set (List UInt8)} {w w' : World}
variable {s s' : Memory} {path : Path} {o : Except IngestError FileOutcome}

theorem Indexes.of_chunksOf_eq {d : StoredDocument} {text : List Char}
    (h : Indexes limits s d text) (hchunks : s'.chunksOf d.id = s.chunksOf d.id) :
    Indexes limits s' d text where
  title_eq := h.title_eq
  rows_eq := by rw [rows, hchunks, ← rows, h.rows_eq]

theorem Certified.of_chunksOf_eq {d : StoredDocument} {hash : String}
    (h : Certified limits K s d hash) (hchunks : s'.chunksOf d.id = s.chunksOf d.id) :
    Certified limits K s' d hash := by
  obtain ⟨bytes, hbytes, hhash, text, htext, hindexes⟩ := h
  exact ⟨bytes, hbytes, hhash, text, htext, hindexes.of_chunksOf_eq hchunks⟩

/-- The document that has been written for a file is that of its text. -/
theorem indexes_writtenDocument {bytes : List UInt8} {text : List Char} {d : NewDocument}
    {now : Instant} (hd : Renders w.files path bytes text d)
    (hrows : s'.rows (s.upsert d now).1 = (chunks limits (String.ofList text)).map Chunk.row) :
    Indexes limits s' (s.writtenDocument d now) text where
  title_eq := by
    rw [writtenDocument, hd.title_eq, hd.path_eq, Path.fileStem_ofText_text]
  rows_eq := hrows

/-- Writing a document leaves the certificates of the others. -/
theorem Sound.certified_of_touches (hw : Sound limits K w) {d : NewDocument} {now : Instant}
    (h : Touches (w.memory.upsert d now).1 (w.memory.upsert d now).2 s) {e : StoredDocument}
    (he : e ∈ w.memory.documents) (hne : e.path ≠ d.path) {hash : String}
    (hhash : hash ∈ e.metadata.fileHash) : Certified limits K s e hash := by
  refine (hw.certified e he hash hhash).of_chunksOf_eq ?_
  rw [h.chunksOf_eq e.id (id_ne_of_path_ne hw.wellFormed he hne), chunksOf_upsert]

theorem Sound.of_effect (hclear : ∀ id, ¬ F.refuses (.clearDocumentHash id))
    (hw : Sound g.limits K w) (hwf : w'.memory.WellFormed) (h : Effect F g path w o w') :
    Sound g.limits K w' := by
  cases h with
  | failed e => exact hw
  | skipped hread hhash => exact hw
  | @written bytes text d now s hd htouches hrows =>
    -- the document that has been written is certified by its rows, the others by what they were
    refine ⟨hw.contents, hwf, fun e he hash hhash => ?_⟩
    rw [htouches.documents_eq, mem_documents_upsert hw.wellFormed] at he
    rcases he with rfl | ⟨he, hne⟩
    · obtain rfl : Sha256.hexDigest bytes = hash := Option.some.inj (hd.hash_eq.symm.trans hhash)
      exact ⟨bytes, hw.contents hd.read, rfl, text, hd.decoded, indexes_writtenDocument hd hrows⟩
    · exact hw.certified_of_touches htouches he hne hhash
  | @broken bytes text d now s s' e hd htouches hs =>
    obtain rfl := hs.resolve_right fun hrefuses => hclear _ hrefuses.1
    -- the document that has been written has lost its hash, so it claims nothing
    refine ⟨hw.contents, hwf, fun e he hash hhash => ?_⟩
    rcases mem_documents_clearHash.mp he with ⟨he, hid⟩ | ⟨f, -, -, rfl⟩
    · rw [htouches.documents_eq, mem_documents_upsert hw.wellFormed] at he
      rcases he with rfl | ⟨he, hne⟩
      · exact absurd rfl hid
      · exact (hw.certified_of_touches htouches he hne hhash).of_chunksOf_eq (chunksOf_clearHash _)
    · cases hhash

/-- **Every world of a run is sound,** as long as hashes can be cleared. -/
theorem sound_of_reachable (hclear : ∀ id, ¬ F.refuses (.clearDocumentHash id))
    (hw : Reachable F g K w) : Sound g.limits K w := by
  have hkept : Kept F g (Sound g.limits K) := fun hsound h =>
    hsound.of_effect hclear (wellFormed_of_ends h hsound.wellFormed) (effect_of_ends h)
  induction hw with
  | start files h => exact ⟨h, wellFormed_empty, fun _ hd => absurd hd List.not_mem_nil⟩
  | change hw files h ih => exact ⟨h, ih.wellFormed, ih.certified⟩
  | file hw h ih => exact hkept ih h
  | all hw h ih => exact hkept.processAll h ih

/-! ## Documents that are up to date -/

/-- The store holds what a file holds: the document that it knows by the text of the path is that of
the text of the file. -/
structure Current (limits : ChunkLimits) (w : World) (path : Path) (text : List Char)
    (d : StoredDocument) : Prop where
  /-- the text is that of the bytes of the file, whose hash the document has -/
  read : ∃ bytes, Files.read w.files path = .ok bytes ∧ decode? bytes = some text ∧
    d.metadata.fileHash = some (Sha256.hexDigest bytes)
  /-- the document is in the store -/
  mem : d ∈ w.memory.documents
  /-- it has the text of the path of the file -/
  path_eq : d.path = Path.text path
  /-- it is that of the text -/
  indexes : Indexes limits w.memory d text

/-- After a file has not failed, the store holds what it holds. -/
theorem Sound.exists_current (hK : Set.InjOn Sha256.hexDigest K) (hw : Sound g.limits K w)
    {a : FileOutcome} (h : Effect F g path w (.ok a) w') :
    ∃ text d, Current g.limits w' path text d := by
  cases h with
  | @skipped bytes hread hhash =>
    obtain ⟨d, hd, hash⟩ := Option.bind_eq_some_iff.mp hhash
    obtain ⟨hmem, hpath⟩ := mem_of_document? hd
    -- the certificate is of bytes with the same hash, and there are no others
    obtain ⟨bytes', hbytes', heq, text, htext, hindexes⟩ := hw.certified d hmem _ hash
    obtain rfl := hK hbytes' (hw.contents hread) heq
    exact ⟨text, d, ⟨bytes', hread, htext, hash⟩, hmem, hpath, hindexes⟩
  | @written bytes text d now s hd htouches hrows =>
    refine ⟨text, w.memory.writtenDocument d now, ⟨bytes, hd.read, hd.decoded, hd.hash_eq⟩, ?_,
      hd.path_eq, indexes_writtenDocument hd hrows⟩
    rw [htouches.documents_eq, mem_documents_upsert hw.wellFormed]
    exact Or.inl rfl

theorem world_eq_of_skipped (h : Effect F g path w (.ok .skipped) w') : w' = w := by
  cases h with
  | skipped hread hhash => rfl

/-! ## A run -/

/-- The name of a file. -/
def sampleName : FileName := Path.ofText "a.md"

/-- A directory with one file, which holds a heading, and an empty store. -/
def sampleWorld : World := ⟨Files.flatDisk [(sampleName, .file [35, 32, 65] 0)], {}⟩

/-- An ingestor with limits by default. -/
def sampleIngestor : Ingestor := ⟨⟨Path.here, [], [], false⟩, {}, 1, 0⟩

/-- An ingestor that finds every file below the working directory. -/
def watchIngestor : Ingestor :=
  ⟨⟨Path.here, [⟨[.leadingDirectories]⟩], [], false⟩, {}, 1, 0⟩

/-- Where there are files only, it finds them all. -/
theorem scan_watchIngestor {es : List (FileName × Files.Entry)} (hes : ∀ e ∈ es, e.2.IsFile) :
    watchIngestor.scanner.scan (Files.flatDisk es) =
      .ok ((es.map fun e => Path.join Path.here e.1).mergeSort Path.le) := by
  have hadmits : ∀ names, watchIngestor.scanner.admits names = true := fun _ => rfl
  rw [Scanner.scan_dot rfl hes]
  simp only [hadmits, List.filter_true, List.map_map]
  rfl

/-- The path of the file when it is scanned. -/
def samplePath : Path := Path.join Path.here sampleName

theorem samplePath_eq : samplePath = Path.ofText "./a.md" := by decide +kernel

theorem text_samplePath : Path.text samplePath = "./a.md" := by
  rw [samplePath_eq, Path.text_ofText]

theorem scan_sampleWorld : watchIngestor.scanner.scan sampleWorld.files = .ok [samplePath] := by
  rw [sampleWorld, scan_watchIngestor (by simp [Files.Entry.IsFile])]
  simp only [List.map_cons, List.map_nil, List.mergeSort_singleton, samplePath]

theorem read_sampleWorld : Files.read sampleWorld.files sampleName = .ok [35, 32, 65] := by
  decide +kernel

/-- In a directory with one file there is nothing but the two. -/
theorem of_at?_singleton {name : FileName} {bytes : List UInt8} {time : Int}
    {place : Files.Place} {e : Files.Entry}
    (h : (Files.Entry.directory [(name, .file bytes time)]).at? place = some e) :
    e = .directory [(name, .file bytes time)] ∨ e = .file bytes time := by
  have hlookup : ∀ (n : FileName) (e : Files.Entry),
      [(name, Files.Entry.file bytes time)].lookup n = some e → e = .file bytes time := by
    intro n e he
    rw [List.lookup_cons] at he
    split at he
    · exact (Option.some.inj he).symm
    · cases he
  rcases place with _ | ⟨n, place⟩
  · exact Or.inl (Option.some.inj h).symm
  · obtain ⟨e, he, hrest⟩ := Option.bind_eq_some_iff.mp h
    obtain rfl := hlookup n e he
    rcases place with _ | ⟨m, place⟩
    · exact Or.inr (Option.some.inj hrest).symm
    · cases hrest

/-- And there is nothing else to be read. -/
theorem contentsIn_singleton (name : FileName) (bytes : List UInt8) (time : Int) :
    ContentsIn {bytes} (Files.flatDisk [(name, .file bytes time)]) := by
  intro path b hread
  rw [Files.read] at hread
  split at hread
  · cases hread
  · split at hread
    · rename_i b' t hat
      obtain rfl := Except.ok.inj hread
      rcases of_at?_singleton hat with heq | heq
      · cases heq
      · cases heq
        exact Set.mem_singleton _
    · cases hread
    · cases hread

theorem reachable_sampleWorld (F : Faults) :
    Reachable F sampleIngestor {[35, 32, 65]} sampleWorld :=
  Reachable.start _ (contentsIn_singleton sampleName [35, 32, 65] 0)

theorem decode?_sampleWorld : decode? [35, 32, 65] = some ['#', ' ', 'A'] := by rfl

theorem chunks_sampleWorld : chunks sampleIngestor.limits (String.ofList ['#', ' ', 'A']) =
    [⟨0, "# A", ⟨"A", 1, .completeSection, 3, 1⟩⟩] := by rfl

/-- The document of the file, when it is written at the start of 1970. -/
def sampleDocument : NewDocument :=
  documentOf sampleName (String.ofList ['#', ' ', 'A']) (Sha256.hexDigest [35, 32, 65]) 3 none 0

theorem exists_ends_sampleWorld (hF : F.Obliging) :
    ∃ w, Ends (Answers F) (sampleIngestor.processFile sampleName).run sampleWorld
      (.ok (.processed 1)) w := by
  have hnew : sampleWorld.memory.hash? (Path.text sampleName) ≠
      some (Sha256.hexDigest [35, 32, 65]) :=
    (Option.some_ne_none _).symm
  have hend := exists_ends_processFile (g := sampleIngestor) hF read_sampleWorld hnew
    decode?_sampleWorld
  rw [chunks_sampleWorld] at hend
  exact hend (List.cons_ne_nil _ _)

/-- What the store holds afterwards is what the file holds. -/
theorem current_sampleWorld (hclear : ∀ id, ¬ F.refuses (.clearDocumentHash id))
    (h : Ends (Answers F) (sampleIngestor.processFile sampleName).run sampleWorld
      (.ok (.processed 1)) w) :
    ∃ d, Current sampleIngestor.limits w sampleName ['#', ' ', 'A'] d := by
  have hsound := sound_of_reachable hclear (reachable_sampleWorld F)
  obtain ⟨text, d, hcurrent⟩ := hsound.exists_current (Set.injOn_singleton _ _) (effect_of_ends h)
  obtain ⟨bytes, hbytes, htext, -⟩ := hcurrent.read
  rw [files_eq_of_ends h, read_sampleWorld] at hbytes
  obtain rfl := Except.ok.inj hbytes
  obtain rfl : ['#', ' ', 'A'] = text := Option.some.inj htext
  exact ⟨d, hcurrent⟩

/-! ## The main result -/

/-- **A stored hash certifies a complete index.** In every world of a run, whatever the store has
refused and the embedder has answered on the way, a document with a hash has as its rows, in the
order of their keys, exactly the chunks of the one content with that hash. So a file that is skipped
is one whose text the store holds already. -/
theorem certified_of_reachable (hclear : ∀ id, ¬ F.refuses (.clearDocumentHash id))
    (hK : Set.InjOn Sha256.hexDigest K) (hw : Reachable F g K w) :
    (∀ d ∈ w.memory.documents, ∀ h ∈ d.metadata.fileHash,
      ∃ bytes ∈ K, Sha256.hexDigest bytes = h ∧
        (∀ b ∈ K, Sha256.hexDigest b = h → b = bytes) ∧
        (∃ text, decode? bytes = some text ∧ Indexes g.limits w.memory d text) ∧
        (w.memory.chunksOf d.id).Pairwise fun b c => b.id < c.id) ∧
      ∀ path w', Ends (Answers F) (g.processFile path).run w (.ok .skipped) w' →
        w' = w ∧ ∃ text d, Current g.limits w path text d := by
  have hsound := sound_of_reachable hclear hw
  refine ⟨fun d hd h hh => ?_, fun path w' hend => ?_⟩
  · obtain ⟨bytes, hbytes, hhash, htext⟩ := hsound.certified d hd h hh
    exact ⟨bytes, hbytes, hhash, fun b hb heq => hK hb hbytes (heq.trans hhash.symm), htext,
      hsound.wellFormed.increasing_chunksOf d.id⟩
  · have heffect := effect_of_ends hend
    obtain rfl := world_eq_of_skipped heffect
    exact ⟨rfl, hsound.exists_current hK heffect⟩

/-- The one document of a run has a hash, and its one row is its one chunk. -/
theorem certified_of_reachable_sample :
    ∃ w, Reachable Faults.worst sampleIngestor {[35, 32, 65]} w ∧ ∃ d ∈ w.memory.documents,
      d.metadata.fileHash = some (Sha256.hexDigest [35, 32, 65]) ∧
        w.memory.rows d.id = [("# A", ⟨"A", 1, .completeSection, 3, 1⟩)] := by
  obtain ⟨w, hend⟩ := exists_ends_sampleWorld Faults.obliging_worst
  have hreach := (reachable_sampleWorld Faults.worst).file hend
  obtain ⟨d, ⟨bytes, hbytes, -, hhash⟩, hd, -, -⟩ :=
    current_sampleWorld Faults.not_refuses_worst hend
  rw [files_eq_of_ends hend, read_sampleWorld] at hbytes
  obtain rfl := Except.ok.inj hbytes
  obtain ⟨hcertified, -⟩ :=
    certified_of_reachable Faults.not_refuses_worst (Set.injOn_singleton _ _) hreach
  obtain ⟨bytes, rfl, -, -, ⟨text, htext, hindexes⟩, -⟩ := hcertified d hd _ hhash
  obtain rfl : ['#', ' ', 'A'] = text := Option.some.inj htext
  exact ⟨w, hreach, d, hd, hhash, hindexes.rows_eq.trans (by rw [chunks_sampleWorld]; rfl)⟩

end MarkdownIndex
