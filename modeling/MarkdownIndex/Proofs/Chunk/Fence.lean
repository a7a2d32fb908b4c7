import MarkdownIndex.Proofs.Chunk.Coverage

/-!
# Fences of chunks: never cut, never repeated

The tracker of fences may be run over the lines of a chunk as over those of the text: no fence
reaches from one chunk into the next, and the fenced lines of the chunks, in order, are the fenced
lines of the text. So no line that a chunk repeats is fenced.

* `sealed_chunks` — no fence reaches across chunks.
* `exists_fenced_eq` — the fenced lines of a text are those of its chunks.
* `unfenced_repeats` — what is repeated is neither a delimiter nor inside a fence.
* `fences_of_chunks` — the main result.
-/

namespace MarkdownIndex

open Text Markdown FenceState

/-! ## Chunks and the own lines of their origins -/

theorem after_lines_toChunk {limits : ChunkLimits} {ls : List Line} (hls : ∀ l ∈ ls, '\n' ∉ l)
    {o : Origin} (ho : o ∈ origins limits ls) (total i : Nat) :
    after none ((o.piece limits).toChunk total i).lines = after none o.parcel.own := by
  rw [← after_map_trim, map_trim_lines_toChunk hls ho, after_core, after_map_trim,
    (sound_of_mem_origins ho).after_lines]

theorem fenced_lines_toChunk {limits : ChunkLimits} {ls : List Line} (hls : ∀ l ∈ ls, '\n' ∉ l)
    {o : Origin} (ho : o ∈ origins limits ls) (total i : Nat) :
    ∃ n, fenced none o.parcel.own =
        fenced none ((o.piece limits).toChunk total i).lines ++ List.replicate n [] ∧
      (after none o.parcel.own = none → n = 0) := by
  have hsound := sound_of_mem_origins ho
  have hcore := fenced_core (o.parcel.lines.map trim)
  rw [← map_trim_lines_toChunk hls ho total i, fenced_map_trim, fenced_map_trim, after_map_trim,
    hsound.fenced_lines, hsound.after_lines] at hcore
  exact hcore

/-- No fence reaches across the own lines of origins. -/
theorem sealed_origins (limits : ChunkLimits) (ls : List Line) :
    Sealed (after none ls) none ((origins limits ls).map fun o => o.parcel.own) := by
  rw [origins, List.map_flatMap]
  refine (sealed_sections ls).flatMap fun t _ => ?_
  have hclosed := (parcelled_parcels limits t).closed
  rwa [← map_parcel_origins, List.map_map] at hclosed

theorem fenced_eq_flatMap_origins (limits : ChunkLimits) (ls : List Line) :
    fenced none ls = (origins limits ls).flatMap fun o => fenced none o.parcel.own := by
  have hsection : ∀ t : Section,
      (t.origins limits).flatMap (fun o => fenced none o.parcel.own) = fenced none t.lines := by
    intro t
    rw [← (parcelled_parcels limits t).fenced, ← map_parcel_origins, List.flatMap_map]
  rw [origins, List.flatMap_assoc, funext hsection]
  conv_lhs => rw [← flatten_map_lines_sections ls, (sealed_sections ls).fenced_flatten]
  exact List.flatMap_map _ _ _

/-! ## Chunks in a row -/

/-- **No fence reaches across chunks.** -/
theorem sealed_chunks (limits : ChunkLimits) (text : String) :
    Sealed (after none (lines text.toList)) none ((chunks limits text).map Chunk.lines) := by
  have hsealed := sealed_origins limits (lines text.toList)
  have hlines : ∀ x ∈ (origins limits (lines text.toList)).zipIdx,
      after none ((x.1.piece limits).toChunk (origins limits (lines text.toList)).length x.2).lines =
        after none x.1.parcel.own := fun x hx =>
    after_lines_toChunk newline_not_mem_of_mem_lines (List.fst_mem_of_mem_zipIdx hx) _ x.2
  rw [← List.zipIdx_map_fst 0 (origins limits (lines text.toList)), List.map_map] at hsealed
  rw [chunks_eq, List.map_map]
  simp only [Function.comp_def] at hsealed ⊢
  exact hsealed.map hlines

/-- Groups that each lack some blank lines of an open fence at the end lack them in the last group
only. -/
theorem Markdown.FenceState.Sealed.exists_flatMap_fenced {α : Type} {t : FenceState} {as : List α}
    {f g : α → List Line} (h : Sealed t none (as.map f))
    (hg : ∀ a ∈ as, ∃ n, fenced none (f a) = fenced none (g a) ++ List.replicate n [] ∧
      (after none (f a) = none → n = 0)) :
    ∃ n, as.flatMap (fun a => fenced none (f a)) =
        as.flatMap (fun a => fenced none (g a)) ++ List.replicate n [] ∧ (t = none → n = 0) := by
  induction as with
  | nil => exact ⟨0, rfl, fun _ => rfl⟩
  | cons a as ih =>
    obtain ⟨⟨n, hn, hzero⟩, hg⟩ := List.forall_mem_cons.mp hg
    -- a group before the last ends with no fence open, so it lacks nothing
    rcases eq_or_ne as [] with rfl | hne
    · refine ⟨n, ?_, (show after none (f a) = t from h) ▸ hzero⟩
      rw [List.flatMap_singleton, List.flatMap_singleton, hn]
    · obtain ⟨hclosed, hrest⟩ := h.of_ne_nil (mt List.map_eq_nil_iff.mp hne)
      obtain ⟨m, hm, hlast⟩ := ih hrest hg
      refine ⟨m, ?_, hlast⟩
      rw [List.flatMap_cons, List.flatMap_cons, hm, hn, hzero hclosed, List.replicate_zero,
        List.append_nil, List.append_assoc]

/-- **The fenced lines of a text are those of its chunks,** up to blank lines at the end of a fence
that is never closed. -/
theorem exists_fenced_eq (limits : ChunkLimits) (text : String) :
    ∃ n, fenced none (lines text.toList) =
        (chunks limits text).flatMap (fun c => fenced none c.lines) ++ List.replicate n [] ∧
      (after none (lines text.toList) = none → n = 0) := by
  have hsealed := sealed_origins limits (lines text.toList)
  have hfenced : ∀ x ∈ (origins limits (lines text.toList)).zipIdx,
      ∃ n, fenced none x.1.parcel.own = fenced none
          ((x.1.piece limits).toChunk (origins limits (lines text.toList)).length x.2).lines ++
            List.replicate n [] ∧ (after none x.1.parcel.own = none → n = 0) := fun x hx =>
    fenced_lines_toChunk newline_not_mem_of_mem_lines (List.fst_mem_of_mem_zipIdx hx) _ x.2
  rw [← List.zipIdx_map_fst 0 (origins limits (lines text.toList)), List.map_map] at hsealed
  simp only [Function.comp_def] at hsealed
  obtain ⟨n, hn, hzero⟩ := hsealed.exists_flatMap_fenced hfenced
  refine ⟨n, ?_, hzero⟩
  rw [fenced_eq_flatMap_origins limits, chunks_eq, List.flatMap_map]
  refine Eq.trans ?_ hn
  conv_lhs => rw [← List.zipIdx_map_fst 0 (origins limits (lines text.toList)), List.flatMap_map]

/-! ## Repeated lines -/

/-- So many lines that a chunk repeats are none of a fence: in the chunk before they are read
outside a fence and open none, and in the chunk itself as well. -/
def Unfenced (limits : ChunkLimits) (text : String) (ns : List Nat) : Prop :=
  ∀ {i : Nat} {c d : Chunk} {n : Nat}, (chunks limits text)[i]? = some c →
    (chunks limits text)[i + 1]? = some d → ns[i + 1]? = some n →
      after none (c.lines.take (c.lines.length - n)) = none ∧
        fenced none (c.lines.drop (c.lines.length - n)) = [] ∧ fenced none (d.lines.take n) = []

theorem mem_dropLast_of_getElem? {α : Type} {as : List α} {i : Nat} {a b : α}
    (ha : as[i]? = some a) (hb : as[i + 1]? = some b) : a ∈ as.dropLast := by
  obtain ⟨hi, -⟩ := List.getElem?_eq_some_iff.mp hb
  refine List.mem_of_getElem? (i := i) ?_
  rwa [List.getElem?_dropLast, if_pos (Nat.lt_sub_of_add_lt hi)]

theorem after_lines_of_mem_dropLast {limits : ChunkLimits} {text : String} {c : Chunk}
    (hc : c ∈ (chunks limits text).dropLast) : after none c.lines = none := by
  refine (sealed_chunks limits text).after_of_mem_dropLast ?_
  rw [← List.map_dropLast]
  exact List.mem_map_of_mem hc

/-- The lines that a chunk repeats are read outside a fence in the chunk before. -/
theorem exists_append_carried {limits : ChunkLimits} {text : String} {i : Nat} {c d : Chunk}
    {o o' : Origin} (hc : (chunks limits text)[i]? = some c)
    (hd : (chunks limits text)[i + 1]? = some d)
    (ho : (origins limits (lines text.toList))[i]? = some o)
    (ho' : (origins limits (lines text.toList))[i + 1]? = some o')
    (hlines : c.lines.map trim = core (o.parcel.lines.map trim)) :
    ∃ ts, c.lines.map trim = ts ++ o'.parcel.carried.map trim ∧ after none ts = none := by
  rcases eq_or_ne o'.parcel.carried [] with hnil | hne
  · refine ⟨c.lines.map trim, ?_, ?_⟩
    · rw [hnil, List.map_nil, List.append_nil]
    · rw [after_map_trim, after_lines_of_mem_dropLast (mem_dropLast_of_getElem? hc hd)]
  · rw [hlines]
    exact (follows_of_carried_ne_nil ho ho' hne).core_eq_append
      (sound_of_mem_origins (List.mem_of_getElem? ho')) hne

theorem unfenced_repeats (limits : ChunkLimits) (text : String) :
    Unfenced limits text (repeats limits text) := by
  intro i c d n hc hd hn
  obtain ⟨o, ho, hco⟩ := exists_origin hc
  obtain ⟨o', ho', hdo⟩ := exists_origin hd
  have hsound := sound_of_mem_origins (List.mem_of_getElem? ho')
  have hclines : c.lines.map trim = core (o.parcel.lines.map trim) := hco ▸
    map_trim_lines_toChunk newline_not_mem_of_mem_lines (List.mem_of_getElem? ho) _ i
  have hdlines : d.lines.map trim = core (o'.parcel.lines.map trim) := hdo ▸
    map_trim_lines_toChunk newline_not_mem_of_mem_lines (List.mem_of_getElem? ho') _ (i + 1)
  have hplain : fenced none (o'.parcel.carried.map trim) = [] := by
    rw [fenced_map_trim, fenced_none_plain hsound.plain]
  rw [repeats, List.getElem?_map, ho', Option.map_some] at hn
  obtain rfl := Option.some.inj hn
  obtain ⟨ts, hts, hafter⟩ := exists_append_carried hc hd ho ho' hclines
  obtain ⟨rest, hrest⟩ := hsound.prefix_core
  -- the last lines of the chunk before are those that are carried, and so are the first of the next
  have hstart : c.lines.length - o'.parcel.carried.length = ts.length := by
    rw [← List.length_map trim, hts, List.length_append, List.length_map, Nat.add_sub_cancel]
  refine ⟨?_, ?_, ?_⟩
  · rw [hstart, ← after_map_trim, List.map_take, hts, List.take_left, hafter]
  · rw [hstart, ← fenced_map_trim, List.map_drop, hts, List.drop_left, hplain]
  · rw [← fenced_map_trim, List.map_take, hdlines, ← hrest, List.take_left' (List.length_map _),
      hplain]

/-! ## The main result -/

/-- **No fence is cut, left open or repeated by cutting a text into chunks.** Every chunk but the
last ends with no fence open, the last one ends as the text does, and the fenced lines of the chunks
are, in order, those of the text. What is repeated holds none of them. -/
theorem fences_of_chunks (limits : ChunkLimits) (text : String) :
    (∀ c ∈ (chunks limits text).dropLast, after none c.lines = none) ∧
      (∀ c ∈ (chunks limits text).getLast?,
        after none c.lines = after none (lines text.toList)) ∧
      (∃ n, fenced none (lines text.toList) =
          (chunks limits text).flatMap (fun c => fenced none c.lines) ++ List.replicate n [] ∧
        (after none (lines text.toList) = none → n = 0)) ∧
      ∃ ns, Repeats limits text ns ∧ Covers limits text ns ∧ Unfenced limits text ns := by
  have hsealed := sealed_chunks limits text
  refine ⟨fun c hc => after_lines_of_mem_dropLast hc, fun c hc => hsealed.after_getLast ?_,
    exists_fenced_eq limits text, repeats limits text, repeats_repeats limits text,
    covers_repeats limits text, unfenced_repeats limits text⟩
  rw [List.getLast?_map, Option.mem_def.mp hc]
  rfl

end MarkdownIndex
