import Mathlib.Algebra.Order.BigOperators.Group.List
import Mathlib.Algebra.Order.Group.Nat
import MarkdownIndex.Proofs.Chunk.Origin
import MarkdownIndex.Proofs.Markdown.Packing

/-!
# Counts: how many chunks a text has

A section that fits is one chunk, and one that does not has as many as it has parts. Whether it fits
is asked of its trimmed lines with all their blanks, and the parts are measured without them, so the
two do not meet at one length; but a section with anything in it has a part at least.

* `length_parcels_of_fits`, `length_parcels_of_long` — the chunks of a section.
* `length_parcels_le`, `antitone_length_chunks` — a greater limit makes no more chunks.
* `fewest_parts_and_chunks` — the main result.
-/

namespace MarkdownIndex

open Text Markdown

variable {limits : ChunkLimits} {t : Section} {max max' : Nat}

theorem length_chunks (limits : ChunkLimits) (text : String) :
    (chunks limits text).length =
      ((sections (lines text.toList)).flatMap fun t => t.parcels limits).length := by
  rw [chunks_eq, List.length_map, List.length_zipIdx, origins, List.length_flatMap,
    List.length_flatMap]
  refine congrArg (fun f => ((sections (lines text.toList)).map f).sum) (funext fun t => ?_)
  rw [← map_parcel_origins limits t, List.length_map]

/-- A section that fits is one chunk, unless it is blank. -/
theorem length_parcels_of_fits (hfits : (trimmedText t.lines).length ≤ limits.maxChars) :
    (t.parcels limits).length ≤ 1 := by
  rw [Section.parcels]
  split_ifs
  · exact Nat.zero_le _
  · exact Nat.le_refl _

/-- A section that does not fit has as many chunks as parts. -/
theorem length_parcels_of_long (hlong : limits.maxChars < (trimmedText t.lines).length) :
    (t.parcels limits).length = (parts limits.maxChars limits.overlapLines t.lines).length := by
  have hblank : ¬ (trimmedText t.lines).isEmpty = true := fun hnil => by
    rw [List.isEmpty_iff.mp hnil] at hlong
    exact Nat.not_lt_zero _ hlong
  rw [← map_lines_parcels_of_long hblank (Nat.not_le.mpr hlong), List.length_map]

/-- A greater limit makes no more chunks of a section. -/
theorem length_parcels_le (h : max ≤ max') (t : Section) :
    (t.parcels ⟨max', 0⟩).length ≤ (t.parcels ⟨max, 0⟩).length := by
  rcases Nat.lt_or_ge max' (trimmedText t.lines).length with hlong | hfits
  · have hparts : ∀ m < (trimmedText t.lines).length,
        (t.parcels ⟨m, 0⟩).length = (parts m 0 t.lines).length :=
      fun _ hm => length_parcels_of_long hm
    rw [hparts max' hlong, hparts max (h.trans_lt hlong)]
    exact length_parts_le h t.lines
  · rcases hparcels : t.parcels ⟨max, 0⟩ with _ | ⟨q, qs⟩
    · -- a blank section has no chunks, whatever the limit
      rw [parcels_eq_nil_iff.mpr (parcels_eq_nil_iff.mp hparcels)]
    · have hone : (t.parcels ⟨max', 0⟩).length ≤ 1 := length_parcels_of_fits hfits
      exact hone.trans (Nat.le_add_left 1 _)

/-- **A greater limit makes no more chunks of a text.** -/
theorem antitone_length_chunks (text : String) :
    Antitone fun max => (chunks ⟨max, 0⟩ text).length := by
  intro max max' h
  simp only [length_chunks, List.length_flatMap]
  exact List.sum_le_sum fun t _ => length_parcels_le h t

/-- **Without overlap a section has as few parts as can be, and a text has no more chunks when they
may be longer.** However the blocks of a section are divided into consecutive groups, each of them a
single block or not too long, there are at least as many groups as the section has parts; and the
parts are such a division themselves. -/
theorem fewest_parts_and_chunks :
    (∀ max ls, IsLeast {n | ∃ gs, Division max (blocks ls) gs ∧ gs.length = n}
      (parts max 0 ls).length) ∧
    ∀ text, Antitone fun max => (chunks ⟨max, 0⟩ text).length :=
  ⟨isLeast_length_parts, antitone_length_chunks⟩

end MarkdownIndex
