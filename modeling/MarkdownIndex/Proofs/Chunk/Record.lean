import MarkdownIndex.Proofs.Chunk.Coverage

/-!
# Records: what a chunk says of itself and of its section

A chunk carries a number, the number of all chunks, a size, a header with its level and a kind. They
are written down before it is known which pieces are blank and left out. Nothing is amiss, because
no parcel of a section is blank: so many parcels, so many chunks.

* `level_eq_zero_iff` — only the preamble has level zero.
* `Chunk.Trimmed` — the text of a chunk is not empty, has no blank ends, and is as long as it says.
* `ChunksOf` — the chunks of one section: what they hold of it and what their records say.
* `exists_groups` — the chunks of a text, one group for each section.
* `records_of_chunks` — the main result.
-/

namespace MarkdownIndex

open Text Markdown FenceState

variable {limits : ChunkLimits} {text : String} {ls : List Line} {t : Section} {k : Nat}

/-! ## The preamble -/

/-- The section at a place is the preamble: the first one, of a text that opens with no header. -/
def IsPreamble (ls : List Line) (k : Nat) : Prop :=
  k = 0 ∧ headerAt? ls 0 = none

theorem headerAt?_cons_zero (l : Line) (ls : List Line) : headerAt? (l :: ls) 0 = header? l := rfl

/-- A section that a header opens has the level of that header. -/
theorem level_pos_of_mem_cut {s : FenceState} (ht : t ∈ (cut s ls).2) : 1 ≤ t.header.level := by
  induction ls generalizing s with
  | nil => exact absurd ht List.not_mem_nil
  | cons l ls ih =>
    rcases ho : opens? s l with _ | h
    · simp only [cut, ho] at ht
      exact ih ht
    · simp only [cut, ho] at ht
      rcases List.mem_cons.mp ht with rfl | ht
      · obtain ⟨_, _, hlevel, _⟩ := header?_eq_some_iff.mp (of_opens? ho).2
        exact hlevel.1
      · exact ih ht

/-- **Only the preamble has level zero.** -/
theorem level_eq_zero_iff (ht : (sections ls)[k]? = some t) :
    t.header.level = 0 ↔ IsPreamble ls k := by
  rcases ls with _ | ⟨l, ls⟩
  · cases ht
  · rw [IsPreamble, headerAt?_cons_zero]
    rcases ho : header? l with _ | h
    · -- the first line is no header, so the preamble is the first section
      have hcut : sections (l :: ls) =
          ⟨.preamble, l :: (cut (next none l) ls).1⟩ :: (cut (next none l) ls).2 := by
        simp only [sections, cut, opens?, ho]
        rfl
      rw [hcut] at ht
      rcases k with _ | k
      · rw [← Option.some.inj ht]
        exact iff_of_true rfl ⟨rfl, rfl⟩
      · have hpos := level_pos_of_mem_cut (List.mem_of_getElem? ht)
        exact iff_of_false (Nat.ne_of_gt hpos) fun h => Nat.succ_ne_zero k h.1
    · -- it is one, so nothing stands before the first header
      have hcut : sections (l :: ls) = (cut none (l :: ls)).2 := by
        simp only [sections, cut, opens?, ho]
        rfl
      rw [hcut] at ht
      have hpos := level_pos_of_mem_cut (List.mem_of_getElem? ht)
      exact iff_of_false (Nat.ne_of_gt hpos) fun h => Option.some_ne_none _ h.2

/-- A section of level zero has no header text. -/
theorem text_eq_nil_of_level (ht : t ∈ sections ls) (hlevel : t.header.level = 0) :
    t.header.text = [] := by
  have hsections : t.header = .preamble ∨ t ∈ (cut none ls).2 := by
    rcases hcut : cut none ls with ⟨body, later⟩
    rw [sections, hcut] at ht
    rcases body with _ | ⟨l, body⟩
    · exact Or.inr ht
    · exact (List.mem_cons.mp ht).imp (fun h => by rw [h]) id
  rcases hsections with hpreamble | hcut
  · rw [hpreamble]
    rfl
  · exact absurd hlevel (Nat.ne_of_gt (level_pos_of_mem_cut hcut))

/-! ## The text of a chunk -/

theorem isBlank_of_mem_head?_trim {cs : List Char} : ∀ d ∈ (trim cs).head?, isBlank d = false := by
  intro d hd
  have hhead := List.head?_dropWhile_not isBlank (trim cs)
  rwa [← trimStart, trimStart_trim, Option.mem_def.mp hd] at hhead

theorem isBlank_of_mem_getLast?_trim {cs : List Char} :
    ∀ d ∈ (trim cs).getLast?, isBlank d = false := by
  intro d hd
  rw [trim, trimEnd, List.getLast?_reverse] at hd
  have hlast := List.head?_dropWhile_not isBlank (trimStart cs).reverse
  rwa [Option.mem_def.mp hd] at hlast

/-- The text of the chunk is not empty and has no blank ends, and its size is the number of its
characters. -/
structure Chunk.Trimmed (c : Chunk) : Prop where
  /-- there is something in it -/
  ne_nil : c.content.toList ≠ []
  /-- it starts with no white space -/
  head : ∀ d ∈ c.content.toList.head?, isBlank d = false
  /-- it ends with no white space -/
  last : ∀ d ∈ c.content.toList.getLast?, isBlank d = false
  /-- its characters are counted -/
  size_eq : c.metadata.size = c.content.length

/-- A piece with a trimmed text that is not empty makes such a chunk. -/
theorem trimmed_toChunk {o : Origin} (ho : o ∈ origins limits ls) (total i : Nat) :
    ((o.piece limits).toChunk total i).Trimmed := by
  obtain ⟨t, -, ho⟩ := List.mem_flatMap.mp ho
  obtain ⟨⟨q, k⟩, hq, rfl⟩ := List.mem_map.mp ho
  have hcontent : ((Origin.piece limits ⟨t, q, k⟩).toChunk total i).content.toList =
      trim (joinLines q.lines) := String.toList_ofList
  refine ⟨?_, ?_, ?_, ?_⟩
  · rw [hcontent]
    exact trimmedText_lines_ne_nil (List.fst_mem_of_mem_zipIdx hq)
  · rw [hcontent]
    exact isBlank_of_mem_head?_trim
  · rw [hcontent]
    exact isBlank_of_mem_getLast?_trim
  · rw [← String.length_toList, hcontent]
    rfl

/-! ## The chunks of one section -/

/-- What the chunks of a section hold of it, and what their records say. -/
structure ChunksOf (limits : ChunkLimits) (ls : List Line) (k : Nat) (t : Section)
    (cs : List Chunk) : Prop where
  /-- behind the lines that they repeat from one another, the chunks hold what is written in the
  section, and every chunk holds something of it -/
  written_eq : ∃ ns : List Nat, ns.length = cs.length ∧ (∀ n ∈ ns.head?, n = 0) ∧
    (∀ n ∈ ns, n ≤ limits.overlapLines) ∧
      (cs.zip ns).flatMap (fun x => written (x.1.lines.drop x.2)) = written t.lines ∧
        ∀ x ∈ cs.zip ns, written (x.1.lines.drop x.2) ≠ []
  /-- they stand under the header of the section -/
  header_eq : ∀ c ∈ cs, c.metadata.header = String.ofList t.header.text
  /-- and have its level -/
  level_eq : ∀ c ∈ cs, c.metadata.headerLevel = t.header.level
  /-- which is zero for the preamble only -/
  preamble : ∀ c ∈ cs, c.metadata.headerLevel = 0 ↔ IsPreamble ls k
  /-- and there is no header then -/
  unheaded : ∀ c ∈ cs, c.metadata.headerLevel = 0 → c.metadata.header = ""
  /-- a chunk is a part if the section has another -/
  part : ∀ c ∈ cs, c.metadata.kind = .sectionPart ↔ 2 ≤ cs.length
  /-- and the whole section if it is the only one -/
  whole : ∀ c ∈ cs, c.metadata.kind = .completeSection ↔ cs = [c]

/-- A parcel carries no more lines than may be repeated. -/
theorem length_carried_le {q : Parcel} (hq : q ∈ t.parcels limits) :
    q.carried.length ≤ limits.overlapLines := by
  have hparcels := parcelled_parcels limits t
  obtain ⟨i, hi⟩ := List.mem_iff_getElem?.mp hq
  rcases i with _ | i
  · rw [hparcels.first q (List.head?_eq_getElem? ▸ hi)]
    exact Nat.zero_le _
  · obtain ⟨hlt, -⟩ := List.getElem?_eq_some_iff.mp hi
    have hbefore := List.getElem?_eq_getElem (Nat.lt_of_succ_lt hlt)
    exact (isChain_getElem? hparcels.chain hbefore hi).length_le

theorem of_mem_section_origins {o : Origin} (ho : o ∈ t.origins limits) :
    o.source = t ∧ o.parcel ∈ t.parcels limits := by
  obtain ⟨⟨q, i⟩, hq, rfl⟩ := List.mem_map.mp ho
  exact ⟨rfl, List.fst_mem_of_mem_zipIdx hq⟩

/-- The chunk that an origin becomes at a position. -/
def Origin.chunk (limits : ChunkLimits) (total : Nat) (x : Origin × Nat) : Chunk :=
  (x.1.piece limits).toChunk total x.2

theorem kind_iff {cs : List Chunk} {c : Chunk} {kind : ChunkKind} (hc : c ∈ cs)
    (hkind : kind = if 1 < cs.length then .sectionPart else .completeSection) :
    (kind = .sectionPart ↔ 2 ≤ cs.length) ∧ (kind = .completeSection ↔ cs = [c]) := by
  by_cases hlong : 1 < cs.length
  · rw [if_pos hlong] at hkind
    subst hkind
    refine ⟨iff_of_true rfl hlong, iff_of_false (fun h => nomatch h) ?_⟩
    rintro rfl
    exact absurd hlong (Nat.lt_irrefl 1)
  · rw [if_neg hlong] at hkind
    subst hkind
    have hone : cs.length = 1 :=
      Nat.le_antisymm (Nat.not_lt.mp hlong) (List.length_pos_of_mem hc)
    obtain ⟨d, rfl⟩ := List.length_eq_one_iff.mp hone
    rw [List.mem_singleton.mp hc]
    exact ⟨iff_of_false (fun h => nomatch h) hlong, iff_of_true rfl rfl⟩

variable {xs : List (Origin × Nat)} {total : Nat}

/-- Behind what they repeat, the chunks of a section hold what is written in it. -/
theorem written_of_origins (hls : ∀ l ∈ ls, '\n' ∉ l) (ht : t ∈ sections ls)
    (hxs : xs.map Prod.fst = t.origins limits) :
    ∃ ns : List Nat, ns.length = (xs.map (Origin.chunk limits total)).length ∧
      (∀ n ∈ ns.head?, n = 0) ∧ (∀ n ∈ ns, n ≤ limits.overlapLines) ∧
        ((xs.map (Origin.chunk limits total)).zip ns).flatMap
            (fun x => written (x.1.lines.drop x.2)) = written t.lines ∧
          ∀ x ∈ (xs.map (Origin.chunk limits total)).zip ns,
            written (x.1.lines.drop x.2) ≠ [] := by
  have horigin : ∀ x ∈ xs, x.1 ∈ t.origins limits := fun x hx =>
    hxs ▸ List.mem_map_of_mem hx
  have hown : ∀ x ∈ xs, written ((Origin.chunk limits total x).lines.drop
      x.1.parcel.carried.length) = written x.1.parcel.own := fun x hx =>
    written_drop_lines hls (List.mem_flatMap_of_mem ht (horigin x hx)) total x.2
  refine ⟨xs.map fun x => x.1.parcel.carried.length, ?_, ?_, ?_, ?_, ?_⟩
  · rw [List.length_map, List.length_map]
  · intro n hn
    rw [List.head?_map] at hn
    obtain ⟨x, hx, rfl⟩ := Option.map_eq_some_iff.mp hn
    rw [(parcelled_parcels limits t).first x.1.parcel, List.length_nil]
    rw [← map_parcel_origins, ← hxs, List.head?_map, List.head?_map, hx]
    rfl
  · intro n hn
    obtain ⟨x, hx, rfl⟩ := List.mem_map.mp hn
    exact length_carried_le (of_mem_section_origins (horigin x hx)).2
  · rw [List.zip_map', List.flatMap_map, List.flatMap_congr hown, ← flatMap_own_origins limits t,
      ← hxs, List.flatMap_map]
  · rw [List.zip_map', List.forall_mem_map]
    intro x hx
    rw [hown x hx]
    exact ((parcelled_parcels limits t).sound _ (of_mem_section_origins (horigin x hx)).2).own

/-- **The chunks of a section hold it and describe it,** whatever number they have. -/
theorem chunks_of_origins (hls : ∀ l ∈ ls, '\n' ∉ l) (ht : (sections ls)[k]? = some t)
    (hxs : xs.map Prod.fst = t.origins limits) :
    ChunksOf limits ls k t (xs.map (Origin.chunk limits total)) := by
  have hmem : t ∈ sections ls := List.mem_of_getElem? ht
  have hsource : ∀ x ∈ xs, x.1.source = t := fun x hx =>
    (of_mem_section_origins (hxs ▸ List.mem_map_of_mem hx)).1
  have hheader : ∀ c ∈ xs.map (Origin.chunk limits total),
      c.metadata.header = String.ofList t.header.text := by
    rw [List.forall_mem_map]
    exact fun x hx => hsource x hx ▸ rfl
  have hlevel : ∀ c ∈ xs.map (Origin.chunk limits total),
      c.metadata.headerLevel = t.header.level := by
    rw [List.forall_mem_map]
    exact fun x hx => hsource x hx ▸ rfl
  have hlength : (xs.map (Origin.chunk limits total)).length = (t.parcels limits).length := by
    rw [List.length_map, ← List.length_map Prod.fst, hxs, ← map_parcel_origins limits t,
      List.length_map]
  have hkind : ∀ c ∈ xs.map (Origin.chunk limits total), c.metadata.kind =
      if 1 < (xs.map (Origin.chunk limits total)).length then .sectionPart
      else .completeSection := by
    rw [List.forall_mem_map, hlength]
    exact fun x hx => hsource x hx ▸ rfl
  exact {
    written_eq := written_of_origins hls hmem hxs
    header_eq := hheader
    level_eq := hlevel
    preamble := fun c hc => by rw [hlevel c hc, level_eq_zero_iff ht]
    unheaded := fun c hc hzero => by
      rw [hheader c hc, text_eq_nil_of_level hmem (hlevel c hc ▸ hzero), String.ofList_nil]
    part := fun c hc => (kind_iff hc (hkind c hc)).1
    whole := fun c hc => (kind_iff hc (hkind c hc)).2 }

/-! ## One group for each section -/

/-- Groups of images are the images of groups. -/
theorem exists_flatten_eq {α β : Type} {f : α → β} {as : List α} {gs : List (List β)}
    (h : as.map f = gs.flatten) :
    ∃ ps : List (List α), ps.flatten = as ∧ ps.map (List.map f) = gs := by
  induction gs generalizing as with
  | nil => exact ⟨[], (List.map_eq_nil_iff.mp h).symm, rfl⟩
  | cons g gs ih =>
    obtain ⟨p, as, rfl, rfl, hrest⟩ := List.map_eq_append_iff.mp h
    obtain ⟨ps, rfl, rfl⟩ := ih hrest
    exact ⟨p :: ps, rfl, rfl⟩

/-- **The chunks of a text are the chunks of its sections,** one group after another. -/
theorem exists_groups (limits : ChunkLimits) (text : String) :
    ∃ groups : List (List Chunk), groups.flatten = chunks limits text ∧
      groups.length = (sections (lines text.toList)).length ∧
        ∀ k t cs, (sections (lines text.toList))[k]? = some t → groups[k]? = some cs →
          ChunksOf limits (lines text.toList) k t cs := by
  have horigins : (origins limits (lines text.toList)).zipIdx.map Prod.fst =
      ((sections (lines text.toList)).map (Section.origins limits)).flatten := by
    rw [List.zipIdx_map_fst, origins, List.flatMap_def]
  obtain ⟨ps, hflatten, hmap⟩ := exists_flatten_eq horigins
  refine ⟨ps.map (List.map (Origin.chunk limits (origins limits (lines text.toList)).length)),
    ?_, ?_, ?_⟩
  · rw [← List.map_flatten, hflatten, chunks_eq]
    rfl
  · rw [List.length_map, ← List.length_map (List.map Prod.fst), hmap, List.length_map]
  · intro k t cs ht hcs
    rw [List.getElem?_map] at hcs
    obtain ⟨xs, hxs, rfl⟩ := Option.map_eq_some_iff.mp hcs
    refine chunks_of_origins newline_not_mem_of_mem_lines ht ?_
    have hk := congrArg (fun gs => gs[k]?) hmap
    rw [List.getElem?_map, List.getElem?_map, hxs, ht] at hk
    exact Option.some.inj hk

/-- **The records of the chunks of a text are right.** They are numbered from zero in order and all
know how many they are; their texts are trimmed, not empty and measured; they fall into one group
for each section, which holds what is written in it, names its header, has level zero for the
preamble only, and is tagged by the number of its chunks. Only a text of white space has none. -/
theorem records_of_chunks (limits : ChunkLimits) (text : String) :
    ((chunks limits text).map Chunk.index =
        (List.range (chunks limits text).length).map Int.ofNat ∧
      ∀ c ∈ chunks limits text, c.metadata.totalChunks = (chunks limits text).length ∧ c.Trimmed) ∧
    (∃ groups : List (List Chunk), groups.flatten = chunks limits text ∧
      groups.length = (sections (lines text.toList)).length ∧
        ∀ k t cs, (sections (lines text.toList))[k]? = some t → groups[k]? = some cs →
          ChunksOf limits (lines text.toList) k t cs) ∧
    (chunks limits text = [] ↔ ∀ c ∈ text.toList, isBlank c = true) := by
  have hlength : (chunks limits text).length = (origins limits (lines text.toList)).length := by
    rw [chunks_eq, List.length_map, List.length_zipIdx]
  refine ⟨⟨?_, fun c hc => ?_⟩, exists_groups limits text, ?_⟩
  · refine List.ext_getElem? fun i => ?_
    rw [List.getElem?_map, List.getElem?_map]
    rcases hi : (chunks limits text)[i]? with _ | c
    · rw [List.getElem?_eq_none (List.length_range ▸ List.getElem?_eq_none_iff.mp hi)]
      rfl
    · obtain ⟨hlt, -⟩ := List.getElem?_eq_some_iff.mp hi
      rw [List.getElem?_range hlt, Option.map_some, Option.map_some, index_of_getElem?_chunks hi]
      rfl
  · obtain ⟨i, hi⟩ := List.mem_iff_getElem?.mp hc
    obtain ⟨o, ho, rfl⟩ := exists_origin hi
    exact ⟨hlength.symm, trimmed_toChunk (List.mem_of_getElem? ho) _ i⟩
  · rw [chunks_eq_nil_iff, isBlankText_iff]

end MarkdownIndex
