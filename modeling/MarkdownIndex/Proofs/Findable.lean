import MarkdownIndex.Proofs.Certificate
import MarkdownIndex.Proofs.Chunk.Coverage
import MarkdownIndex.Proofs.Store.Search

/-!
# Findable lines: what has been ingested can be found again

Every written line of a text stands in one of its chunks; the rows of a document that is up to date
are those chunks; and a word finds every row it is a token of. So every word of every line of a file
finds that line, with the path and the title of its document.

* `exists_chunk_of_mem_lines` — the chunk in which a line stands.
* `Indexes.exists_row` — the row in which it is stored.
* `findable_of_processed` — the main result.
-/

namespace MarkdownIndex

open Text Memory World Program Ingestor

variable {F : Faults} {g : Ingestor} {limits : ChunkLimits} {K : Set (List UInt8)} {w w' : World}
variable {s : Memory} {path : Path} {d : StoredDocument}

/-- A line that has a word is not blank. -/
theorem not_isBlankText_of_run {l t : List Char} (ht : t ∈ alphanumericRuns l) :
    ¬ isBlankText l = true := by
  intro hblank
  have hsep : ∀ c ∈ l, (!isAlphanumeric c) = true := fun c hc =>
    not_isAlphanumeric_of_isBlank c (isBlankText_iff.mp hblank c hc)
  have hnone := runsOutside_append_of_sep [] hsep
  rw [List.nil_append, runsOutside_nil] at hnone
  rw [alphanumericRuns, hnone] at ht
  cases ht

theorem mem_written_iff {l : Line} (hl : ¬ isBlankText l = true) {ls : List Line} :
    trim l ∈ written ls ↔ ∃ m ∈ ls, trim m = trim l := by
  rw [written, List.mem_filter, List.mem_map, isEmpty_trim]
  exact and_iff_left (by rw [eq_false_of_ne_true hl]; rfl)

/-- Every written line of a text stands in one of its chunks. -/
theorem exists_chunk_of_mem_lines (limits : ChunkLimits) {text : String} {l : Line}
    (hl : l ∈ lines text.toList) (hsolid : ¬ isBlankText l = true) :
    ∃ c ∈ chunks limits text, ∃ m ∈ c.lines, trim m = trim l := by
  have hwritten : trim l ∈ written (lines text.toList) := (mem_written_iff hsolid).mpr ⟨l, hl, rfl⟩
  rw [← Markdown.flatten_map_lines_sections (lines text.toList), written_flatten] at hwritten
  obtain ⟨_, hgroup, hwritten⟩ := List.mem_flatMap.mp hwritten
  obtain ⟨t, ht, rfl⟩ := List.mem_map.mp hgroup
  rw [← flatMap_own_origins limits t] at hwritten
  obtain ⟨o, ho, hwritten⟩ := List.mem_flatMap.mp hwritten
  -- the chunk of the origin holds its own lines behind those that it repeats
  have hmem : o ∈ origins limits (lines text.toList) := List.mem_flatMap.mpr ⟨t, ht, ho⟩
  obtain ⟨i, hi⟩ := List.mem_iff_getElem?.mp hmem
  rw [← written_drop_lines newline_not_mem_of_mem_lines hmem
    (origins limits (lines text.toList)).length i] at hwritten
  obtain ⟨m, hm, htrim⟩ := (mem_written_iff hsolid).mp hwritten
  refine ⟨_, ?_, m, List.mem_of_mem_drop hm, htrim⟩
  rw [chunks_eq]
  exact List.mem_map.mpr ⟨(o, i), List.mk_mem_zipIdx_iff_getElem?.mpr hi, rfl⟩

/-- Every written line of the text of a document stands in one of its rows. -/
theorem Indexes.exists_row {text : List Char} (h : Indexes limits s d text) {l : Line}
    (hl : l ∈ lines text) (hsolid : ¬ isBlankText l = true) :
    ∃ c ∈ s.chunksOf d.id, ∃ m ∈ lines c.content.toList, trim m = trim l := by
  rw [← String.toList_ofList (l := text)] at hl
  obtain ⟨c, hc, m, hm, htrim⟩ := exists_chunk_of_mem_lines limits hl hsolid
  have hrow : c.row ∈ s.rows d.id := h.rows_eq ▸ List.mem_map_of_mem hc
  obtain ⟨c', hc', hrow'⟩ := List.mem_map.mp hrow
  have hcontent : c'.content = c.content := congrArg Prod.fst hrow'
  exact ⟨c', hc', m, hcontent ▸ hm, htrim⟩

/-- **What has been ingested can be found again.** After a file has been processed or skipped in a
run, every word of every line of the file finds a chunk that holds the line, with the path and the
title of the document, if the limit leaves no chunk out. -/
theorem findable_of_processed (hclear : ∀ id, ¬ F.refuses (.clearDocumentHash id))
    (hK : Set.InjOn Sha256.hexDigest K) (hw : Reachable F g K w) {a : FileOutcome}
    (h : Ends (Answers F) (g.processFile path).run w (.ok a) w') :
    ∃ text d, Current g.limits w' path text d ∧
      ∀ l ∈ lines text, ∀ t ∈ alphanumericRuns l, ∀ limit : Int,
        w'.memory.chunks.length ≤ limit →
          ∃ hit ∈ w'.memory.fulltextSearch (String.ofList t) limit, hit.documentId = d.id ∧
            hit.path = Path.text path ∧ hit.title = d.title ∧ trim l <:+: hit.content.toList := by
  have hsound := sound_of_reachable hclear hw
  have hwf := wellFormed_of_ends h hsound.wellFormed
  obtain ⟨text, d, hcurrent⟩ := hsound.exists_current hK (effect_of_ends h)
  refine ⟨text, d, hcurrent, fun l hl t ht limit hlimit => ?_⟩
  obtain ⟨c, hc, m, hm, htrim⟩ := hcurrent.indexes.exists_row hl (not_isBlankText_of_run ht)
  have htoken : lowerText t ∈ tokens c.content.toList := mem_tokens_of_mem_lines hm htrim ht
  obtain ⟨hit, hhit, hid, hpath, htitle, hcontent⟩ :=
    exists_mem_fulltextSearch hwf hcurrent.mem hc ht htoken hlimit
  refine ⟨hit, hhit, hid, hpath.trans hcurrent.path_eq, htitle, ?_⟩
  rw [hcontent, ← htrim]
  exact (infix_trim m).trans (infix_of_mem_lines c.content.toList m hm)

/-- In a run where nothing goes wrong the word of a heading finds it. -/
theorem findable_of_processed_sample :
    ∃ w, Ends (Answers Faults.none) (sampleIngestor.processFile sampleName).run sampleWorld
        (.ok (.processed 1)) w ∧
      ∃ hit ∈ w.memory.fulltextSearch "A" w.memory.chunks.length,
        hit.path = "a.md" ∧ hit.title = "A" ∧ "# A".toList <:+: hit.content.toList := by
  obtain ⟨w, hend⟩ := exists_ends_sampleWorld Faults.obliging_none
  obtain ⟨text, d, hcurrent, hfind⟩ := findable_of_processed (fun _ => not_false)
    (Set.injOn_singleton _ _) (reachable_sampleWorld Faults.none) hend
  obtain ⟨bytes, hbytes, htext, -⟩ := hcurrent.read
  rw [files_eq_of_ends hend, read_sampleWorld] at hbytes
  obtain rfl := Except.ok.inj hbytes
  obtain rfl : ['#', ' ', 'A'] = text := Option.some.inj htext
  have hrun : ['A'] ∈ alphanumericRuns ['#', ' ', 'A'] := by decide
  obtain ⟨hit, hhit, -, hpath, htitle, hinfix⟩ :=
    hfind ['#', ' ', 'A'] (by decide) ['A'] hrun _ (Int.le_refl _)
  refine ⟨w, hend, hit, hhit, hpath, ?_, hinfix⟩
  rw [htitle, hcurrent.indexes.title_eq, hcurrent.path_eq]
  rfl

end MarkdownIndex
