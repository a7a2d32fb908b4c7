import Mathlib.Data.List.Chain
import MarkdownIndex.Proofs.Chunk.Origin

/-!
# Coverage: chunks hold every written line once, under its header

A chunk that is not the first of its section opens with lines of the chunk before it. Apart from
them nothing is lost and nothing is said twice: the written lines of all chunks, in order, with the
headers in the metadata of the chunks, are the written lines of the text with the headers that
govern them there.

* `partNumbers` — the place of each chunk among the chunks of its section.
* `Repeats` — numbers of lines that chunks repeat from the chunks before them.
* `Covers` — those numbers account for everything that is said twice.
* `exists_repeats_covering` — the main result.
-/

namespace MarkdownIndex

open Text Markdown FenceState

/-! ## Repeated lines -/

/-- For each chunk of a text its place among the chunks of its section, from zero. -/
def partNumbers (limits : ChunkLimits) (text : String) : List Nat :=
  (sections (lines text.toList)).flatMap fun t => List.range (pieces limits t).length

/-- The numbers say of each chunk of a text how many of its first lines are the last lines of the
chunk before it. Lines are compared without the blanks at their ends. -/
structure Repeats (limits : ChunkLimits) (text : String) (ns : List Nat) : Prop where
  /-- there is a number for each chunk -/
  length_eq : ns.length = (chunks limits text).length
  /-- a chunk that is a whole section repeats nothing -/
  whole : ∀ {i : Nat} {c : Chunk}, (chunks limits text)[i]? = some c →
    c.metadata.kind = .completeSection → ns[i]? = some 0
  /-- the first chunk of a section repeats nothing -/
  first : ∀ {i : Nat}, (partNumbers limits text)[i]? = some 0 → ns[i]? = some 0
  /-- what is repeated is the end of the chunk before, and no more than may be -/
  repeated : ∀ {i : Nat} {c d : Chunk} {n : Nat}, (chunks limits text)[i]? = some c →
    (chunks limits text)[i + 1]? = some d → ns[i + 1]? = some n →
      n ≤ limits.overlapLines ∧
        ∃ ts, ts.length = n ∧ ts <:+ c.lines.map trim ∧ ts <+: d.lines.map trim

/-! ## What a parcel carries, seen in the chunks -/

theorem head_map_trim {ls : List Line} (h : ∀ l ∈ ls.head?, ¬ isBlankText l = true) :
    ∀ t ∈ (ls.map trim).head?, t ≠ [] := by
  intro t ht
  rw [List.head?_map] at ht
  obtain ⟨l, hl, rfl⟩ := Option.map_eq_some_iff.mp ht
  exact mt trim_eq_nil_iff.mp (h l hl)

theorem getLast_map_trim {ls : List Line} (h : ∀ l ∈ ls.getLast?, ¬ isBlankText l = true) :
    ∀ t ∈ (ls.map trim).getLast?, t ≠ [] := by
  intro t ht
  rw [List.getLast?_map] at ht
  obtain ⟨l, hl, rfl⟩ := Option.map_eq_some_iff.mp ht
  exact mt trim_eq_nil_iff.mp (h l hl)

/-- A chunk starts with what its parcel carries. -/
theorem Markdown.Parcel.Sound.prefix_core {q : Parcel} (h : q.Sound) :
    q.carried.map trim <+: core (q.lines.map trim) := by
  rcases eq_or_ne q.carried [] with hnil | hne
  · rw [hnil]
    exact List.nil_prefix
  · -- something is written on the own lines, so the core reaches beyond what is carried
    have hwritten : ∃ t ∈ ([] : Line) :: q.own.map trim, t ≠ [] := by
      obtain ⟨t, ht⟩ := List.exists_mem_of_ne_nil _ h.own
      obtain ⟨hmem, hsolid⟩ := List.mem_filter.mp ht
      refine ⟨t, List.mem_cons_of_mem _ hmem, ?_⟩
      rintro rfl
      cases hsolid
    rw [Parcel.lines, extend_of_ne_nil hne, List.map_append, List.map_cons]
    exact prefix_core_append (head_map_trim h.head) hwritten

/-- The chunk before ends with what a parcel carries, which starts outside a fence there. -/
theorem Markdown.Follows.core_eq_append {n : Nat} {q r : Parcel} (h : Follows n q r) (hr : r.Sound)
    (hne : r.carried ≠ []) :
    ∃ ts, core (q.lines.map trim) = ts ++ r.carried.map trim ∧ after none ts = none := by
  obtain ⟨as, has, hafter⟩ := h.suffix
  have hlast : ∀ l ∈ r.carried.getLast?, ¬ isBlankText l = true := by
    intro l hl
    refine h.getLast l ?_
    rw [← has, List.getLast?_append_of_ne_nil _ hne]
    exact hl
  refine ⟨(as.map trim).dropWhile List.isEmpty, ?_, ?_⟩
  · rw [← has, List.map_append]
    exact core_append (mt List.map_eq_nil_iff.mp hne) (head_map_trim hr.head)
      (getLast_map_trim hlast)
  · rw [after_dropWhile_isEmpty, after_map_trim, hafter]

/-- Behind what its parcel carries, a chunk holds what is written on the own lines. -/
theorem Markdown.Parcel.Sound.written_drop_core {q : Parcel} (h : q.Sound) :
    written ((core (q.lines.map trim)).drop q.carried.length) = written q.own := by
  obtain ⟨rest, hrest⟩ := h.prefix_core
  have hwritten : written (core (q.lines.map trim)) = written q.carried ++ written q.own := by
    rw [written_core, written_map_trim, Parcel.lines, written_extend]
  rw [← hrest, written_append, written_map_trim] at hwritten
  rw [← hrest, List.drop_left' (List.length_map _)]
  exact List.append_cancel_left hwritten

/-! ## Origins in a row -/

theorem sound_of_mem_origins {limits : ChunkLimits} {ls : List Line} {o : Origin}
    (ho : o ∈ origins limits ls) : o.parcel.Sound := by
  obtain ⟨t, -, ho⟩ := List.mem_flatMap.mp ho
  refine (parcelled_parcels limits t).sound o.parcel ?_
  rw [← map_parcel_origins]
  exact List.mem_map_of_mem ho

/-- The first parcel of a section carries nothing. -/
theorem carried_eq_nil_of_place {limits : ChunkLimits} {ls : List Line} {o : Origin}
    (ho : o ∈ origins limits ls) (hplace : o.place = 0) : o.parcel.carried = [] := by
  obtain ⟨t, -, ho⟩ := List.mem_flatMap.mp ho
  obtain ⟨⟨q, k⟩, hq, rfl⟩ := List.mem_map.mp ho
  obtain rfl : k = 0 := hplace
  refine (parcelled_parcels limits t).first q ?_
  rw [List.head?_eq_getElem?]
  exact List.mk_mem_zipIdx_iff_getElem?.mp hq

/-- A chunk that is a whole section comes from its first parcel. -/
theorem place_eq_zero_of_whole {limits : ChunkLimits} {ls : List Line} {o : Origin}
    (ho : o ∈ origins limits ls) (hkind : (o.piece limits).kind = .completeSection) :
    o.place = 0 := by
  obtain ⟨t, -, ho⟩ := List.mem_flatMap.mp ho
  obtain ⟨⟨q, k⟩, hq, rfl⟩ := List.mem_map.mp ho
  have hlt : k < (t.parcels limits).length := (List.mem_zipIdx' hq).1
  have hone : ¬ 1 < (t.parcels limits).length := by
    intro hlong
    rw [Origin.piece, Section.kind, if_pos hlong] at hkind
    cases hkind
  exact Nat.lt_one_iff.mp (Nat.lt_of_lt_of_le hlt (Nat.not_lt.mp hone))

theorem isChain_flatMap {α β : Type} {R : β → β → Prop} {f : α → List β} {as : List α}
    (hchain : ∀ a ∈ as, List.IsChain R (f a))
    (hhead : ∀ a ∈ as, ∀ y ∈ (f a).head?, ∀ x, R x y) : List.IsChain R (as.flatMap f) := by
  induction as with
  | nil => exact List.IsChain.nil
  | cons a as ih =>
    obtain ⟨ha, hchain⟩ := List.forall_mem_cons.mp hchain
    obtain ⟨-, hhead⟩ := List.forall_mem_cons.mp hhead
    rw [List.flatMap_cons, List.isChain_append]
    refine ⟨ha, ih hchain hhead, ?_⟩
    intro x _ y hy
    rw [List.head?_flatMap] at hy
    obtain ⟨b, hb, hy⟩ := List.exists_of_findSome?_eq_some hy
    exact hhead b hb y hy x

theorem isChain_getElem? {α : Type} {R : α → α → Prop} {as : List α} (h : List.IsChain R as)
    {i : Nat} {a b : α} (ha : as[i]? = some a) (hb : as[i + 1]? = some b) : R a b := by
  obtain ⟨_, rfl⟩ := List.getElem?_eq_some_iff.mp ha
  obtain ⟨hi, rfl⟩ := List.getElem?_eq_some_iff.mp hb
  exact List.isChain_iff_getElem.mp h i hi

/-- In a row of origins each is the first of its section or follows from the one before. -/
theorem isChain_origins (limits : ChunkLimits) (ls : List Line) :
    List.IsChain (fun o o' => o'.place = 0 ∨ Follows limits.overlapLines o.parcel o'.parcel)
      (origins limits ls) := by
  refine isChain_flatMap (fun t _ => ?_) fun t _ o ho _ => Or.inl ?_
  · have hchain := (parcelled_parcels limits t).chain
    rw [← map_parcel_origins, List.isChain_map] at hchain
    exact hchain.imp fun _ _ h => Or.inr h
  · have hplace : o.place ∈ (List.range (t.parcels limits).length).head? := by
      rw [← map_place_origins, List.head?_map, Option.mem_def.mp ho]
      rfl
    rw [List.head?_range] at hplace
    split at hplace
    · cases hplace
    · exact (Option.some.inj hplace).symm

/-- An origin that carries lines follows from the one before. -/
theorem follows_of_carried_ne_nil {limits : ChunkLimits} {ls : List Line} {i : Nat} {o o' : Origin}
    (ho : (origins limits ls)[i]? = some o) (ho' : (origins limits ls)[i + 1]? = some o')
    (hne : o'.parcel.carried ≠ []) : Follows limits.overlapLines o.parcel o'.parcel := by
  rcases isChain_getElem? (isChain_origins limits ls) ho ho' with hplace | hfollows
  · exact absurd (carried_eq_nil_of_place (List.mem_of_getElem? ho') hplace) hne
  · exact hfollows

/-! ## The main result -/

/-- How many lines each chunk repeats. -/
def repeats (limits : ChunkLimits) (text : String) : List Nat :=
  (origins limits (lines text.toList)).map fun o => o.parcel.carried.length

theorem partNumbers_eq (limits : ChunkLimits) (text : String) :
    partNumbers limits text = (origins limits (lines text.toList)).map Origin.place := by
  rw [partNumbers, origins, List.map_flatMap]
  refine congrArg (fun f => (sections (lines text.toList)).flatMap f) (funext fun t => ?_)
  rw [map_place_origins, pieces_eq, List.length_map, Section.origins, List.length_map,
    List.length_zipIdx]

/-- The origin of a chunk. -/
theorem exists_origin {limits : ChunkLimits} {text : String} {i : Nat} {c : Chunk}
    (hc : (chunks limits text)[i]? = some c) :
    ∃ o, (origins limits (lines text.toList))[i]? = some o ∧
      c = (o.piece limits).toChunk (origins limits (lines text.toList)).length i := by
  rw [chunks_eq, List.getElem?_map, List.getElem?_zipIdx] at hc
  obtain ⟨⟨o, j⟩, ho, rfl⟩ := Option.map_eq_some_iff.mp hc
  obtain ⟨o', ho', heq⟩ := Option.map_eq_some_iff.mp ho
  rw [Nat.zero_add] at heq
  obtain ⟨rfl, rfl⟩ := Prod.mk.inj heq
  exact ⟨o', ho', rfl⟩

theorem repeats_eq_zero {limits : ChunkLimits} {text : String} {i : Nat} {o : Origin}
    (ho : (origins limits (lines text.toList))[i]? = some o) (hplace : o.place = 0) :
    (repeats limits text)[i]? = some 0 := by
  rw [repeats, List.getElem?_map, ho, Option.map_some,
    carried_eq_nil_of_place (List.mem_of_getElem? ho) hplace]
  rfl

theorem repeats_repeats (limits : ChunkLimits) (text : String) :
    Repeats limits text (repeats limits text) where
  length_eq := by
    rw [repeats, chunks_eq, List.length_map, List.length_map, List.length_zipIdx]
  whole := by
    intro i c hc hkind
    obtain ⟨o, ho, rfl⟩ := exists_origin hc
    exact repeats_eq_zero ho (place_eq_zero_of_whole (List.mem_of_getElem? ho) hkind)
  first := by
    intro i hi
    rw [partNumbers_eq, List.getElem?_map] at hi
    obtain ⟨o, ho, hplace⟩ := Option.map_eq_some_iff.mp hi
    exact repeats_eq_zero ho hplace
  repeated := by
    intro i c d n hc hd hn
    obtain ⟨o, ho, rfl⟩ := exists_origin hc
    obtain ⟨o', ho', rfl⟩ := exists_origin hd
    rw [repeats, List.getElem?_map, ho', Option.map_some] at hn
    obtain rfl := Option.some.inj hn
    have hmem := List.mem_of_getElem? ho
    have hmem' := List.mem_of_getElem? ho'
    rw [map_trim_lines_toChunk newline_not_mem_of_mem_lines hmem,
      map_trim_lines_toChunk newline_not_mem_of_mem_lines hmem']
    have hsound := sound_of_mem_origins hmem'
    -- a parcel that carries lines follows from the parcel of the chunk before
    rcases eq_or_ne o'.parcel.carried [] with hnil | hne
    · rw [hnil]
      exact ⟨Nat.zero_le _, [], rfl, List.nil_suffix, List.nil_prefix⟩
    · have hfollows := follows_of_carried_ne_nil ho ho' hne
      obtain ⟨ts, hts, -⟩ := hfollows.core_eq_append hsound hne
      exact ⟨hfollows.length_le, o'.parcel.carried.map trim, List.length_map _,
        ⟨ts, hts.symm⟩, hsound.prefix_core⟩

theorem written_eq_map_filter (ls : List Line) :
    written ls = (ls.filter fun l => !isBlankText l).map trim := by
  rw [written, List.filter_map]
  refine congrArg (fun p => (ls.filter p).map trim) (funext fun l => ?_)
  rw [Function.comp_apply, isEmpty_trim]

/-- The own lines of the parcels of a section hold what is written in it. -/
theorem flatMap_own_origins (limits : ChunkLimits) (t : Section) :
    (t.origins limits).flatMap (fun o => written o.parcel.own) = written t.lines := by
  rw [← (parcelled_parcels limits t).written, ← map_parcel_origins, List.flatMap_map]

/-- A written line with the text and the level of a header. -/
def label (h : Header) (l : Line) : Line × String × Nat := (l, String.ofList h.text, h.level)

/-- What is written on the own lines of the origin of a chunk, under its header. -/
def Origin.labelled (o : Origin) : List (Line × String × Nat) :=
  (written o.parcel.own).map (label o.source.header)

theorem flatMap_labelled_origins (limits : ChunkLimits) (ls : List Line) :
    (origins limits ls).flatMap Origin.labelled =
      ((governed ls).filter fun (l, _) => !isBlankText l).map fun (l, h) => label h (trim l) := by
  have hsection : ∀ t : Section, (t.origins limits).flatMap Origin.labelled =
      (t.ascribed.filter fun (l, _) => !isBlankText l).map fun (l, h) => label h (trim l) := by
    intro t
    have hsource : ∀ o ∈ t.origins limits, o.labelled =
        (written o.parcel.own).map (label t.header) := by
      intro o ho
      obtain ⟨⟨q, k⟩, -, rfl⟩ := List.mem_map.mp ho
      rfl
    rw [List.flatMap_congr hsource, ← List.map_flatMap, flatMap_own_origins,
      written_eq_map_filter, List.map_map, Section.ascribed, List.filter_map, List.map_map]
    rfl
  rw [origins, List.flatMap_assoc, ← flatMap_sections, List.filter_flatMap, List.map_flatMap]
  exact congrArg (fun f => (sections ls).flatMap f) (funext hsection)

/-- Behind the lines that it repeats, a chunk holds the own lines of its origin. -/
theorem written_drop_lines {limits : ChunkLimits} {ls : List Line} (hls : ∀ l ∈ ls, '\n' ∉ l)
    {o : Origin} (ho : o ∈ origins limits ls) (total i : Nat) :
    written (((o.piece limits).toChunk total i).lines.drop o.parcel.carried.length) =
      written o.parcel.own := by
  rw [← written_map_trim, List.map_drop, map_trim_lines_toChunk hls ho]
  exact (sound_of_mem_origins ho).written_drop_core

/-- The numbers account for everything that is said twice: behind so many of their first lines the
chunks hold what is written in the text, in order, and the header of a line's metadata is the one
that governs the line in the text. -/
def Covers (limits : ChunkLimits) (text : String) (ns : List Nat) : Prop :=
  ((chunks limits text).zip ns).flatMap (fun (c, n) =>
      (written (c.lines.drop n)).map fun l => (l, c.metadata.header, c.metadata.headerLevel)) =
    ((governed (lines text.toList)).filter fun (l, _) => !isBlankText l).map fun (l, h) =>
      (trim l, String.ofList h.text, h.level)

theorem covers_repeats (limits : ChunkLimits) (text : String) :
    Covers limits text (repeats limits text) := by
  have hrepeats : repeats limits text = (origins limits (lines text.toList)).zipIdx.map
      fun x => x.1.parcel.carried.length := by
    rw [repeats]
    conv_lhs => rw [← List.zipIdx_map_fst 0 (origins limits (lines text.toList)), List.map_map]
    rfl
  have hchunk : ∀ x ∈ (origins limits (lines text.toList)).zipIdx,
      ((written ((((x.1.piece limits).toChunk (origins limits (lines text.toList)).length
        x.2).lines).drop x.1.parcel.carried.length)).map (label x.1.source.header)) =
        x.1.labelled := by
    intro x hx
    rw [written_drop_lines newline_not_mem_of_mem_lines (List.fst_mem_of_mem_zipIdx hx)]
    rfl
  rw [Covers, hrepeats, chunks_eq, List.zip_map', List.flatMap_map]
  refine (List.flatMap_congr hchunk).trans ?_
  rw [← List.flatMap_map, List.zipIdx_map_fst]
  exact flatMap_labelled_origins limits (lines text.toList)

/-- **Chunks hold every written line once, under its header.** There are numbers of repeated lines
such that the chunks without them hold, in order and with the headers of their metadata, what is
written in the text with the headers that govern it. -/
theorem exists_repeats_covering (limits : ChunkLimits) (text : String) :
    ∃ ns, Repeats limits text ns ∧ Covers limits text ns :=
  ⟨repeats limits text, repeats_repeats limits text, covers_repeats limits text⟩

end MarkdownIndex
