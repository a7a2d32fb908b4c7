import MarkdownIndex.Proofs.Chunk.Origin
import MarkdownIndex.Proofs.Markdown.Block

/-!
# Blocks of chunks: what is never cut, and when a chunk is too large

A section that is too long becomes chunks by way of its parts. What holds of parts and their blocks
is said here of chunks, whose text is joined and trimmed.

* `length_joinLines` — joining lines makes a text as long as they are counted.
* `exists_mem_chunks_whole`, `exists_mem_chunks_part` — a section that fits is a chunk, and so is
  each part of one that does not.
* `of_mem_chunks` — every chunk comes about in one of these ways.
* `blocks_of_chunks` — the main result.
-/

namespace MarkdownIndex

open Text Markdown FenceState

variable {limits : ChunkLimits} {text : String} {c : Chunk} {t : Section}

/-! ## Sizes -/

theorem length_joinLines (ls : List Line) : (joinLines ls).length = joinedLength ls := by
  induction ls with
  | nil => rfl
  | cons l ls ih =>
    rcases eq_or_ne ls [] with rfl | hne
    · simp [joinedLength]
    · have hlength := List.length_pos_iff.mpr hne
      rw [joinLines_cons l hne, List.length_append, List.length_cons, ih, joinedLength,
        joinedLength, List.flatten_cons, List.length_append, List.length_cons]
      omega

theorem length_trimmedText_le (ls : List Line) : (trimmedText ls).length ≤ joinedLength ls := by
  rw [← length_joinLines]
  exact (infix_trim _).length_le

/-! ## Chunks and sections -/

/-- The chunk stands under a header and has the joined and trimmed text of some lines. -/
structure Chunk.Renders (c : Chunk) (h : Header) (ls : List Line) : Prop where
  /-- its text -/
  content_eq : c.content = String.ofList (trimmedText ls)
  /-- its size -/
  size_eq : c.metadata.size = (trimmedText ls).length
  /-- its header -/
  header_eq : c.metadata.header = String.ofList h.text
  /-- its level -/
  level_eq : c.metadata.headerLevel = h.level

theorem renders_toChunk (h : Header) (kind : ChunkKind) (ls : List Line) (total i : Nat) :
    ((⟨h, kind, trimmedText ls⟩ : Piece).toChunk total i).Renders h ls :=
  ⟨rfl, rfl, rfl, rfl⟩

theorem mem_chunks_iff : c ∈ chunks limits text ↔
    ∃ (i : Nat) (q : Piece),
      ((sections (lines text.toList)).flatMap (pieces limits))[i]? = some q ∧
        c = q.toChunk ((sections (lines text.toList)).flatMap (pieces limits)).length i := by
  simp only [chunks, List.mem_map, Prod.exists, List.mk_mem_zipIdx_iff_getElem?]
  constructor
  · rintro ⟨q, i, hq, rfl⟩
    exact ⟨i, q, hq, rfl⟩
  · rintro ⟨i, q, hq, rfl⟩
    exact ⟨q, i, hq, rfl⟩

/-- A piece of a section becomes a chunk. -/
theorem exists_mem_chunks (ht : t ∈ sections (lines text.toList)) (kind : ChunkKind)
    {ls : List Line} (h : ⟨t.header, kind, trimmedText ls⟩ ∈ pieces limits t) :
    ∃ c ∈ chunks limits text, c.Renders t.header ls := by
  obtain ⟨i, hi⟩ := List.mem_iff_getElem?.mp (List.mem_flatMap_of_mem ht h)
  exact ⟨_, mem_chunks_iff.mpr ⟨i, _, hi, rfl⟩, renders_toChunk t.header kind ls _ i⟩

/-- A section that fits is a chunk. -/
theorem exists_mem_chunks_whole (ht : t ∈ sections (lines text.toList))
    (hblank : trimmedText t.lines ≠ []) (hfits : (trimmedText t.lines).length ≤ limits.maxChars) :
    ∃ c ∈ chunks limits text, c.Renders t.header t.lines := by
  refine exists_mem_chunks ht .completeSection ?_
  simp only [pieces, if_neg (mt List.isEmpty_iff.mp hblank), if_pos hfits]
  exact List.mem_singleton_self _

/-- Every part of a section that does not fit is a chunk. -/
theorem exists_mem_chunks_part (ht : t ∈ sections (lines text.toList))
    (hlong : limits.maxChars < (trimmedText t.lines).length) {p : List Line}
    (hp : p ∈ parts limits.maxChars limits.overlapLines t.lines) :
    ∃ c ∈ chunks limits text, c.Renders t.header p := by
  have hblank : ¬ (trimmedText t.lines).isEmpty = true := by
    intro hnil
    rw [List.isEmpty_iff.mp hnil] at hlong
    exact Nat.not_lt_zero _ hlong
  have hfits := Nat.not_le.mpr hlong
  refine exists_mem_chunks ht (t.kind limits) ?_
  rw [← map_lines_parcels_of_long hblank hfits] at hp
  obtain ⟨q, hq, rfl⟩ := List.mem_map.mp hp
  rw [pieces_eq, map_piece_origins]
  exact List.mem_map_of_mem hq

/-- **A chunk is a section that fits or a part of one that does not.** -/
theorem of_mem_chunks (hc : c ∈ chunks limits text) :
    ∃ t ∈ sections (lines text.toList),
      (trimmedText t.lines).length ≤ limits.maxChars ∧ c.Renders t.header t.lines ∨
        ∃ p ∈ parts limits.maxChars limits.overlapLines t.lines, c.Renders t.header p := by
  obtain ⟨i, q, hq, rfl⟩ := mem_chunks_iff.mp hc
  obtain ⟨t, ht, hq⟩ := List.mem_flatMap.mp (List.mem_of_getElem? hq)
  refine ⟨t, ht, ?_⟩
  rw [pieces] at hq
  dsimp only at hq
  split at hq
  · exact absurd hq List.not_mem_nil
  · split at hq
    · rename_i hfits
      obtain rfl := List.mem_singleton.mp hq
      exact Or.inl ⟨hfits, renders_toChunk _ _ _ _ i⟩
    · obtain ⟨content, hcontent, rfl⟩ := List.mem_map.mp hq
      obtain ⟨p, hp, rfl⟩ := List.mem_map.mp (List.mem_filter.mp hcontent).1
      exact Or.inr ⟨p, hp, renders_toChunk _ _ _ _ i⟩

/-! ## The main result -/

/-- A row of lines without a blank one outside a fence is no part of a blank section. -/
theorem trimmedText_ne_nil_of_solid {as b cs : List Line} (hne : b ≠ [])
    (h : Solid (after none as) b) : trimmedText (as ++ b ++ cs) ≠ [] := by
  intro hnil
  have hblank := trimmedText_eq_nil_iff.mp hnil
  rw [List.forall_mem_append, List.forall_mem_append] at hblank
  obtain ⟨⟨has, hb⟩, -⟩ := hblank
  rw [proper_none.after_blank has] at h
  obtain ⟨l, b, rfl⟩ := List.exists_cons_of_ne_nil hne
  exact h.head l rfl (hb l List.mem_cons_self)

/-- A row of lines without a blank one outside a fence stands in one piece in a chunk of its
section. -/
theorem exists_mem_chunks_of_solid (ht : t ∈ sections (lines text.toList)) {as b cs : List Line}
    (hlines : t.lines = as ++ b ++ cs) (hne : b ≠ []) (h : Solid (after none as) b) :
    ∃ c ∈ chunks limits text, ∃ ls, c.Renders t.header ls ∧ b <:+: ls := by
  rcases Nat.lt_or_ge limits.maxChars (trimmedText t.lines).length with hlong | hfits
  · obtain ⟨k, hk, hbk⟩ := exists_mem_blocks hne h cs
    rw [← hlines] at hk
    obtain ⟨p, hp, hkp⟩ := exists_mem_parts hk
    obtain ⟨c, hc, hrenders⟩ := exists_mem_chunks_part ht hlong hp
    exact ⟨c, hc, p, hrenders, hbk.trans hkp⟩
  · have hblank : trimmedText t.lines ≠ [] := hlines ▸ trimmedText_ne_nil_of_solid hne h
    obtain ⟨c, hc, hrenders⟩ := exists_mem_chunks_whole ht hblank hfits
    exact ⟨c, hc, t.lines, hrenders, as, cs, hlines.symm⟩

/-- A chunk that is too large is a part of one block. -/
theorem exists_block_of_size (hc : c ∈ chunks limits text)
    (hlarge : limits.maxChars < c.metadata.size) :
    ∃ t ∈ sections (lines text.toList), ∃ i p, ∃ b ∈ blocks t.lines,
      (parts limits.maxChars limits.overlapLines t.lines)[i]? = some p ∧ c.Renders t.header p ∧
        p = extend (takenOver limits.overlapLines []
          (parts limits.maxChars limits.overlapLines t.lines) i) b := by
  obtain ⟨t, ht, ⟨hfits, hrenders⟩ | ⟨p, hp, hrenders⟩⟩ := of_mem_chunks hc
  · exact absurd hfits (Nat.not_le.mpr (hrenders.size_eq ▸ hlarge))
  · obtain ⟨i, hi⟩ := List.mem_iff_getElem?.mp hp
    obtain ⟨gs, hflatten, hdealt⟩ := exists_dealt limits.maxChars limits.overlapLines t.lines
    have hlt : i < gs.length := hdealt.length_eq ▸ (List.getElem?_eq_some_iff.mp hi).1
    have hg := List.getElem?_eq_getElem hlt
    -- the part is no shorter than the chunk, so it has one block
    have hlength : limits.maxChars < joinedLength p :=
      (hrenders.size_eq ▸ hlarge).trans_le (length_trimmedText_le p)
    obtain ⟨b, hb⟩ := hdealt.single hi hg hlength
    rw [hb] at hg
    refine ⟨t, ht, i, p, b, ?_, hi, hrenders, hdealt.part_eq hi hg⟩
    rw [← hflatten]
    exact List.mem_flatten_of_mem (List.mem_of_getElem? hg) (List.mem_singleton_self b)

/-- **A section is cut only between blocks and only where it has to be, and a chunk is too large
only if it cannot be cut.** A row of lines without a blank one outside a fence stands in one piece
in a chunk of its section, before that is trimmed. The blocks, which are the maximal such rows, are
dealt out to the parts in order, and a part ends only where the next block would make it too large.
A chunk that is too large has one block behind what it takes over. -/
theorem blocks_of_chunks (limits : ChunkLimits) (text : String) :
    (∀ t ∈ sections (lines text.toList), ∀ as b cs, t.lines = as ++ b ++ cs → b ≠ [] →
      Solid (after none as) b →
        ∃ c ∈ chunks limits text, ∃ ls, c.Renders t.header ls ∧ b <:+: ls) ∧
    (∀ t ∈ sections (lines text.toList),
      (∀ b, b ∈ blocks t.lines ↔ ∃ as cs, t.lines = as ++ b ++ cs ∧ Maximal as b cs) ∧
        ∃ gs, gs.flatten = blocks t.lines ∧ Dealt limits.maxChars limits.overlapLines []
          (parts limits.maxChars limits.overlapLines t.lines) gs) ∧
    ∀ c ∈ chunks limits text, limits.maxChars < c.metadata.size →
      ∃ t ∈ sections (lines text.toList), ∃ i p, ∃ b ∈ blocks t.lines,
        (parts limits.maxChars limits.overlapLines t.lines)[i]? = some p ∧
          c.Renders t.header p ∧ p = extend (takenOver limits.overlapLines []
            (parts limits.maxChars limits.overlapLines t.lines) i) b :=
  ⟨fun _ ht _ _ _ hlines hne h => exists_mem_chunks_of_solid ht hlines hne h,
    fun t _ => ⟨fun _ => mem_blocks_iff, exists_dealt _ _ t.lines⟩,
    fun _ hc hlarge => exists_block_of_size hc hlarge⟩

end MarkdownIndex
