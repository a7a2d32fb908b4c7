import MarkdownIndex.Chunk
import MarkdownIndex.Proofs.Markdown.Part
import MarkdownIndex.Proofs.Markdown.Section

/-!
# Origins: the section and the parcel that a chunk comes from

A chunk is a trimmed text; what it is made of can no longer be seen in it. An **origin** is what a
chunk was before: a section, a parcel of that section, and the place of the parcel among those of
the section.

* `Section.parcels` — the parcels of a section: none if it is blank, one if it fits, else those that
  its blocks are packed into. Their laws hold alike in the three cases.
* `origins`, `chunks_eq` — the origins of the chunks of a text; a chunk for each, in order.
* `Chunk.lines` — the lines of a chunk; `map_trim_lines_toChunk` reads them off the origin.
-/

namespace MarkdownIndex

open Text Markdown FenceState

/-! ## Blank sections -/

theorem isBlankText_joinLines {ls : List Line} :
    isBlankText (joinLines ls) = true ↔ ∀ l ∈ ls, isBlankText l = true := by
  induction ls with
  | nil => exact iff_of_true rfl fun l hl => nomatch hl
  | cons l ls ih =>
    rcases eq_or_ne ls [] with rfl | hne
    · rw [joinLines_singleton, List.forall_mem_singleton]
    · rw [joinLines_cons _ hne, isBlankText, List.all_append, List.all_cons, Bool.and_eq_true,
        Bool.and_eq_true, ← isBlankText, ← isBlankText, ih, List.forall_mem_cons]
      exact ⟨fun h => ⟨h.1, h.2.2⟩, fun h => ⟨h.1, isBlank_newline, h.2⟩⟩

theorem trimmedText_eq_nil_iff {ls : List Line} :
    trimmedText ls = [] ↔ ∀ l ∈ ls, isBlankText l = true := by
  rw [trimmedText, trim_eq_nil_iff, isBlankText_joinLines]

theorem written_eq_nil_iff {ls : List Line} :
    written ls = [] ↔ ∀ l ∈ ls, isBlankText l = true := by
  refine ⟨fun h l hl => ?_, written_eq_nil_of_blank⟩
  rw [← isEmpty_trim]
  have hnone := List.filter_eq_nil_iff.mp h (trim l) (List.mem_map_of_mem hl)
  rwa [Bool.not_eq_true, Bool.not_eq_false'] at hnone

/-! ## The parcels of a section -/

/-- The parcels of a section. -/
def Markdown.Section.parcels (limits : ChunkLimits) (t : Section) : List Parcel :=
  if (trimmedText t.lines).isEmpty then []
  else if (trimmedText t.lines).length ≤ limits.maxChars then [⟨[], t.lines⟩]
  else match blocks t.lines with
    | [] => []
    | b :: bs => Markdown.parcels limits.maxChars limits.overlapLines ⟨[], b⟩ bs

/-- What the parcels of a section have to be for its chunks to be right. -/
structure Parcelled (limits : ChunkLimits) (t : Section) (qs : List Parcel) : Prop where
  /-- every parcel is sound -/
  sound : ∀ q ∈ qs, q.Sound
  /-- every parcel follows from the one before -/
  chain : List.IsChain (Follows limits.overlapLines) qs
  /-- the first carries nothing -/
  first : ∀ q ∈ qs.head?, q.carried = []
  /-- the own lines hold what is written in the section -/
  written : qs.flatMap (fun q => written q.own) = written t.lines
  /-- no fence reaches across parcels -/
  closed : Sealed (after none t.lines) none (qs.map Parcel.own)
  /-- the own lines hold what is fenced in the section -/
  fenced : qs.flatMap (fun q => fenced none q.own) = fenced none t.lines

theorem parcelled_of_blank (limits : ChunkLimits) {t : Section}
    (h : ∀ l ∈ t.lines, isBlankText l = true) : Parcelled limits t [] where
  sound := fun _ hq => nomatch hq
  chain := List.IsChain.nil
  first := fun _ hq => nomatch hq
  written := (written_eq_nil_of_blank h).symm
  closed := (proper_none.after_blank h).symm
  fenced := (fenced_none_blank h).symm

theorem parcelled_whole (limits : ChunkLimits) {t : Section} (h : written t.lines ≠ []) :
    Parcelled limits t [⟨[], t.lines⟩] where
  sound := List.forall_mem_singleton.mpr (Parcel.sound_of_written h)
  chain := List.IsChain.singleton _
  first := fun q hq => by rw [← Option.some.inj hq]
  written := List.append_nil _
  closed := rfl
  fenced := List.append_nil _

theorem parcelled_packed (limits : ChunkLimits) {t : Section} {b : List Line}
    {bs : List (List Line)} (h : blocks t.lines = b :: bs) :
    Parcelled limits t (Markdown.parcels limits.maxChars limits.overlapLines ⟨[], b⟩ bs) := by
  have hblocks : ∀ c ∈ b :: bs, IsBlock c := h ▸ isBlock_of_mem_blocks
  obtain ⟨hb, hbs⟩ := List.forall_mem_cons.mp hblocks
  have hsealed : Sealed (after none t.lines) none (b :: bs) := h ▸ sealed_blocks t.lines
  have hflatten : (b :: bs).flatten = keep none t.lines := h ▸ flatten_blocks t.lines
  have hq : (⟨[], b⟩ : Parcel).Sound := Parcel.sound_of_written hb.written_ne_nil
  obtain ⟨hsound, hchain⟩ := sound_parcels limits.maxChars limits.overlapLines hq (hb.ended []) hb.1
    hbs hsealed
  obtain ⟨hclosed, hfenced⟩ := sealed_parcels limits.maxChars limits.overlapLines (q := ⟨[], b⟩)
    hsealed
  refine ⟨hsound, hchain, ?_, ?_, hclosed, ?_⟩
  · obtain ⟨r, rs, hr, hcarried⟩ :=
      parcels_eq_cons limits.maxChars limits.overlapLines ⟨[], b⟩ bs
    rw [hr]
    intro q hq
    rw [← Option.some.inj hq, hcarried]
  · rw [flatMap_written_parcels, ← written_keep none t.lines, ← hflatten]
    exact (written_flatten (b :: bs)).symm
  · rw [hfenced, ← fenced_keep none t.lines, ← hflatten, hsealed.fenced_flatten]
    rfl

/-- **The parcels of a section are right, whether it is blank, fits or is cut.** -/
theorem parcelled_parcels (limits : ChunkLimits) (t : Section) :
    Parcelled limits t (t.parcels limits) := by
  rw [Section.parcels]
  split
  · rename_i hblank
    rw [List.isEmpty_iff] at hblank
    exact parcelled_of_blank limits (trimmedText_eq_nil_iff.mp hblank)
  · rename_i hblank
    have hwritten : written t.lines ≠ [] := fun h =>
      hblank (List.isEmpty_iff.mpr (trimmedText_eq_nil_iff.mpr (written_eq_nil_iff.mp h)))
    split
    · exact parcelled_whole limits hwritten
    · rcases hb : blocks t.lines with _ | ⟨b, bs⟩
      · -- without a block nothing would be written
        have hkeep : keep none t.lines = [] := by rw [← flatten_blocks, hb, List.flatten_nil]
        refine absurd ?_ hwritten
        rw [← written_keep none, hkeep, written_nil]
      · exact parcelled_packed limits hb

/-- The lines of parcels are lines of the section or empty ones between its blocks. -/
theorem mem_lines_parcels {limits : ChunkLimits} {t : Section} {q : Parcel}
    (hq : q ∈ t.parcels limits) : ∀ l ∈ q.lines, l ∈ t.lines ∨ l = [] := by
  rw [Section.parcels] at hq
  split at hq
  · exact absurd hq List.not_mem_nil
  · split at hq
    · rw [List.mem_singleton.mp hq]
      exact fun l hl => Or.inl hl
    · have hblocks : ∀ l ∈ (blocks t.lines).flatten, l ∈ t.lines := by
        rw [flatten_blocks]
        exact (keep_sublist none t.lines).subset
      split at hq
      · exact absurd hq List.not_mem_nil
      · rename_i b bs hb
        rw [hb, List.flatten_cons, List.forall_mem_append] at hblocks
        have hbs : ∀ c ∈ bs, ∀ l ∈ c, l ∈ t.lines ∨ l = [] := fun c hc l hl =>
          Or.inl (hblocks.2 l (List.mem_flatten_of_mem hc hl))
        exact forall_mem_lines_parcels (Or.inr rfl) (fun l hl => absurd hl List.not_mem_nil)
          (fun l hl => Or.inl (hblocks.1 l hl)) hbs q hq

/-! ## Origins -/

/-- Where a chunk comes from. -/
structure Origin where
  /-- the section -/
  source : Section
  /-- the parcel of the section -/
  parcel : Parcel
  /-- its place among the parcels of the section, from zero -/
  place : Nat

/-- The origins of the chunks of a section. -/
def Markdown.Section.origins (limits : ChunkLimits) (t : Section) : List Origin :=
  (t.parcels limits).zipIdx.map fun (q, k) => ⟨t, q, k⟩

/-- The origins of the chunks of some lines. -/
def origins (limits : ChunkLimits) (ls : List Line) : List Origin :=
  (sections ls).flatMap fun t => t.origins limits

/-- The kind of the chunks of a section. -/
def Markdown.Section.kind (limits : ChunkLimits) (t : Section) : ChunkKind :=
  if 1 < (t.parcels limits).length then .sectionPart else .completeSection

/-- The piece that an origin becomes. -/
def Origin.piece (limits : ChunkLimits) (o : Origin) : Piece :=
  ⟨o.source.header, o.source.kind limits, trimmedText o.parcel.lines⟩

theorem map_parcel_origins (limits : ChunkLimits) (t : Section) :
    (t.origins limits).map Origin.parcel = t.parcels limits := by
  rw [Section.origins, List.map_map]
  exact List.zipIdx_map_fst 0 _

theorem map_place_origins (limits : ChunkLimits) (t : Section) :
    (t.origins limits).map Origin.place = List.range (t.parcels limits).length := by
  rw [Section.origins, List.map_map, List.range_eq_range']
  exact List.zipIdx_map_snd 0 _

theorem map_piece_origins (limits : ChunkLimits) (t : Section) :
    (t.origins limits).map (Origin.piece limits) =
      (t.parcels limits).map fun q => ⟨t.header, t.kind limits, trimmedText q.lines⟩ := by
  rw [← map_parcel_origins limits t, List.map_map]
  refine List.map_congr_left fun o ho => ?_
  obtain ⟨⟨q, k⟩, -, rfl⟩ := List.mem_map.mp ho
  rfl

theorem trimmedText_lines_ne_nil {limits : ChunkLimits} {t : Section} {q : Parcel}
    (hq : q ∈ t.parcels limits) : trimmedText q.lines ≠ [] := by
  intro htrim
  have hwritten := written_eq_nil_iff.mpr (trimmedText_eq_nil_iff.mp htrim)
  rw [Parcel.lines, written_extend] at hwritten
  exact ((parcelled_parcels limits t).sound q hq).own (List.append_eq_nil_iff.mp hwritten).2

/-- The parcels of a section that has to be cut are its parts. -/
theorem map_lines_parcels_of_long {limits : ChunkLimits} {t : Section}
    (hblank : ¬ (trimmedText t.lines).isEmpty = true)
    (hlong : ¬ (trimmedText t.lines).length ≤ limits.maxChars) :
    (t.parcels limits).map Parcel.lines =
      parts limits.maxChars limits.overlapLines t.lines := by
  rw [Section.parcels, if_neg hblank, if_neg hlong, parts]
  rcases hb : blocks t.lines with _ | ⟨b, bs⟩
  · rfl
  · have hblocks : ∀ c ∈ b :: bs, IsBlock c := hb ▸ isBlock_of_mem_blocks
    obtain ⟨hfirst, hbs⟩ := List.forall_mem_cons.mp hblocks
    exact map_lines_parcels (q := ⟨[], b⟩) hfirst.1 hbs

/-- **The pieces of a section are its parcels, joined and trimmed.** -/
theorem pieces_eq (limits : ChunkLimits) (t : Section) :
    pieces limits t = (t.origins limits).map (Origin.piece limits) := by
  rw [map_piece_origins]
  by_cases hblank : (trimmedText t.lines).isEmpty = true
  · rw [Section.parcels, if_pos hblank]
    simp only [pieces, if_pos hblank, List.map_nil]
  · by_cases hlong : (trimmedText t.lines).length ≤ limits.maxChars
    · simp only [pieces, if_neg hblank, if_pos hlong, Section.kind, Section.parcels]
      rfl
    · -- no part of a section is blank, so none is left out
      have hparts := map_lines_parcels_of_long hblank hlong
      have hfilter : ((parts limits.maxChars limits.overlapLines t.lines).map trimmedText).filter
          (fun c => !c.isEmpty) = (t.parcels limits).map fun q => trimmedText q.lines := by
        rw [← hparts, List.map_map]
        refine List.filter_eq_self.mpr fun c hc => ?_
        obtain ⟨q, hq, rfl⟩ := List.mem_map.mp hc
        rw [Bool.not_eq_true', List.isEmpty_eq_false_iff]
        exact trimmedText_lines_ne_nil hq
      simp only [pieces, if_neg hblank, if_neg hlong]
      rw [hfilter, List.map_map, ← hparts, List.length_map]
      rfl

/-! ## Chunks -/

/-- **The chunks of a text come from its origins, in order.** -/
theorem chunks_eq (limits : ChunkLimits) (text : String) :
    chunks limits text = (origins limits (lines text.toList)).zipIdx.map fun x =>
      (x.1.piece limits).toChunk (origins limits (lines text.toList)).length x.2 := by
  have hpieces : (sections (lines text.toList)).flatMap (pieces limits) =
      (origins limits (lines text.toList)).map (Origin.piece limits) := by
    rw [origins, List.map_flatMap]
    exact congrArg (fun f => (sections (lines text.toList)).flatMap f)
      (funext fun t => pieces_eq limits t)
  simp only [chunks, hpieces, List.length_map, List.zipIdx_map, List.map_map]
  rfl

theorem parcels_eq_nil_iff {limits : ChunkLimits} {t : Section} :
    t.parcels limits = [] ↔ ∀ l ∈ t.lines, isBlankText l = true := by
  constructor
  · intro h
    have hwritten := (parcelled_parcels limits t).written
    rw [h, List.flatMap_nil] at hwritten
    exact written_eq_nil_iff.mp hwritten.symm
  · intro h
    rw [Section.parcels, if_pos (List.isEmpty_iff.mpr (trimmedText_eq_nil_iff.mpr h))]

/-- **A text without chunks is a blank one.** -/
theorem chunks_eq_nil_iff {limits : ChunkLimits} {text : String} :
    chunks limits text = [] ↔ isBlankText text.toList = true := by
  have hsections : (∀ l ∈ lines text.toList, isBlankText l = true) ↔
      ∀ t ∈ sections (lines text.toList), ∀ l ∈ t.lines, isBlankText l = true := by
    conv_lhs => rw [← flatten_map_lines_sections (lines text.toList)]
    rw [List.forall_mem_flatten, List.forall_mem_map]
  rw [chunks_eq, List.map_eq_nil_iff, List.zipIdx_eq_nil_iff, origins, List.flatMap_eq_nil_iff,
    ← forall_isBlankText_lines, hsections]
  refine forall₂_congr fun t _ => ?_
  rw [Section.origins, List.map_eq_nil_iff, List.zipIdx_eq_nil_iff, parcels_eq_nil_iff]

/-- Chunks are numbered by their places. -/
theorem index_of_getElem?_chunks {limits : ChunkLimits} {text : String} {k : Nat} {c : Chunk}
    (h : (chunks limits text)[k]? = some c) : c.index = k := by
  rw [chunks_eq, List.getElem?_map, List.getElem?_zipIdx, Option.map_map] at h
  obtain ⟨o, -, rfl⟩ := Option.map_eq_some_iff.mp h
  exact congrArg Int.ofNat (Nat.zero_add k)

/-- The lines of a chunk. -/
def Chunk.lines (c : Chunk) : List Line := Text.lines c.content.toList

/-- The lines of a chunk are, but for blanks at their ends, the core of the lines of its parcel. -/
theorem map_trim_lines_toChunk {limits : ChunkLimits} {ls : List Line}
    (hls : ∀ l ∈ ls, '\n' ∉ l) {o : Origin} (ho : o ∈ origins limits ls) (total i : Nat) :
    ((o.piece limits).toChunk total i).lines.map trim = core (o.parcel.lines.map trim) := by
  obtain ⟨t, ht, ho⟩ := List.mem_flatMap.mp ho
  obtain ⟨⟨q, k⟩, hq, rfl⟩ := List.mem_map.mp ho
  have hunbroken : ∀ l ∈ q.lines, '\n' ∉ l := by
    intro l hl
    rcases mem_lines_parcels (List.fst_mem_of_mem_zipIdx hq) l hl with hl | rfl
    · exact hls l (mem_of_mem_sections ht l hl)
    · exact List.not_mem_nil
  have hcontent : ((Origin.piece limits ⟨t, q, k⟩).toChunk total i).content.toList =
      trim (joinLines q.lines) := String.toList_ofList
  rw [Chunk.lines, hcontent, map_trim_lines_trim_joinLines hunbroken]

end MarkdownIndex
