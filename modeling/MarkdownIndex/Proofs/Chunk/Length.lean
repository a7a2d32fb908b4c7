import Mathlib.Data.List.Forall2
import MarkdownIndex.Proofs.Chunk.Origin
import MarkdownIndex.Proofs.Markdown.Overlap

/-!
# Lengths: how many lines a chunk has

Chunks take over lines from chunks that took over lines themselves. Their numbers of lines have a
bound all the same, which depends on the limits and on the longest block of the section alone.

* `chunkSections` — for each chunk of a text its section.
* `length_lines_piece_le` — the lines of the chunk that comes from an origin.
* `length_lines_chunks` — the main result.
-/

namespace MarkdownIndex

open Text Markdown

variable {limits : ChunkLimits} {text : String} {ls : List Line} {t : Section} {o : Origin}

/-- For each chunk of a text the section that it is a piece of. -/
def chunkSections (limits : ChunkLimits) (text : String) : List Section :=
  (sections (lines text.toList)).flatMap fun t => (pieces limits t).map fun _ => t

theorem source_of_mem_origins (ho : o ∈ t.origins limits) : o.source = t := by
  obtain ⟨⟨q, k⟩, -, rfl⟩ := List.mem_map.mp ho
  rfl

/-- The sections of the chunks are those of their origins. -/
theorem chunkSections_eq (limits : ChunkLimits) (text : String) :
    chunkSections limits text = (origins limits (lines text.toList)).map Origin.source := by
  rw [chunkSections, origins, List.map_flatMap]
  refine congrArg (fun f => (sections (lines text.toList)).flatMap f) (funext fun t => ?_)
  rw [pieces_eq, List.map_map]
  exact List.map_congr_left fun o ho => (source_of_mem_origins ho).symm

/-- The chunk of a parcel has no more lines than that, and no more than characters. -/
theorem length_lines_toChunk_le (hls : ∀ l ∈ ls, '\n' ∉ l) (ho : o ∈ origins limits ls)
    (total i : Nat) :
    ((o.piece limits).toChunk total i).lines.length ≤
      min o.parcel.lines.length (trimmedText o.parcel.lines).length := by
  refine Nat.le_min.mpr ⟨?_, ?_⟩
  · have hlines := congrArg List.length (map_trim_lines_toChunk hls ho total i)
    have hcore := length_core_le (o.parcel.lines.map trim)
    rw [List.length_map] at hlines hcore
    omega
  · have hcontent : ((o.piece limits).toChunk total i).content.toList =
        trimmedText o.parcel.lines := String.toList_ofList
    rw [Chunk.lines, hcontent]
    exact length_lines_le _

/-- **A chunk has no more lines than two of the longest blocks of its section and two more,** unless
it has no more than one for each character that a chunk may have and one more. -/
theorem length_lines_piece_le (hls : ∀ l ∈ ls, '\n' ∉ l) (ho : o ∈ origins limits ls)
    (total i : Nat) :
    ((o.piece limits).toChunk total i).lines.length ≤
      max (2 * longestBlock o.source.lines + 2) (limits.maxChars + 1) := by
  have hlength := length_lines_toChunk_le hls ho total i
  obtain ⟨t, -, ho⟩ := List.mem_flatMap.mp ho
  obtain ⟨⟨q, k⟩, hq, rfl⟩ := List.mem_map.mp ho
  replace hq : q ∈ t.parcels limits := List.fst_mem_of_mem_zipIdx hq
  by_cases hblank : (trimmedText t.lines).isEmpty = true
  · rw [Section.parcels, if_pos hblank] at hq
    exact absurd hq List.not_mem_nil
  · by_cases hfits : (trimmedText t.lines).length ≤ limits.maxChars
    · -- a section that fits has no more lines than characters
      rw [Section.parcels, if_neg hblank, if_pos hfits] at hq
      obtain rfl := List.mem_singleton.mp hq
      have hlines : trimmedText (Parcel.lines ⟨[], t.lines⟩) = trimmedText t.lines := rfl
      simp only [hlines] at hlength ⊢
      omega
    · have hpart : q.lines ∈ parts limits.maxChars limits.overlapLines t.lines := by
        rw [← map_lines_parcels_of_long hblank hfits]
        exact List.mem_map_of_mem hq
      have hbound := length_le_of_mem_parts q.lines hpart
      simp only at hlength ⊢
      omega

/-- **Chunks do not grow by repeating lines of each other.** No chunk has more lines than two of the
longest blocks of its section and two more, or one for each character that a chunk may have and one
more, whichever is greater; however many blocks the section has, and however many lines are asked to
be repeated. -/
theorem length_lines_chunks (limits : ChunkLimits) (text : String) :
    List.Forall₂
      (fun c t => c.lines.length ≤ max (2 * longestBlock t.lines + 2) (limits.maxChars + 1))
      (chunks limits text) (chunkSections limits text) := by
  have hbound : ∀ o ∈ origins limits (lines text.toList), ∀ total i,
      ((o.piece limits).toChunk total i).lines.length ≤
        max (2 * longestBlock o.source.lines + 2) (limits.maxChars + 1) := fun o ho =>
    length_lines_piece_le newline_not_mem_of_mem_lines ho
  rw [chunks_eq, chunkSections_eq]
  generalize origins limits (lines text.toList) = os at hbound ⊢
  conv_rhs => rw [← List.zipIdx_map_fst 0 os, List.map_map]
  rw [List.forall₂_map_left_iff, List.forall₂_map_right_iff, List.forall₂_same]
  exact fun x hx => hbound x.1 (List.fst_mem_of_mem_zipIdx hx) os.length x.2

end MarkdownIndex
