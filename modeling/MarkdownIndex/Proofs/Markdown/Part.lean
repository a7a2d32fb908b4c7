import MarkdownIndex.Markdown.Part
import MarkdownIndex.Proofs.Markdown.Fence

/-!
# Parts: what packing keeps, and what it repeats

A section that is too long loses its blank lines outside fences when it is cut into blocks, and it
gains the lines that each part takes over from the part before. Both are made visible here:

* `keep` — the lines that blocks consist of; `Solid` — lines among which none is to be left out.
* `sealed_blocks` — no fence reaches across blocks.
* `overlapTail` — a suffix of the part, of bounded length, that opens no fence.
* `Parcel` — a part with the lines it has taken over and its own lines told apart; `parcels` packs
  blocks into parcels, and `map_lines_parcels` says that their lines are the parts.
* `Follows` — what a parcel has to do with the one before it.
-/

namespace MarkdownIndex.Markdown

open Text FenceState

/-! ## The lines that blocks consist of -/

/-- Lines, read in a fence state, without the blank ones outside fences. -/
def keep (s : FenceState) : List Line → List Line
  | [] => []
  | l :: ls => if isBlankText l = true ∧ s = none then keep none ls else l :: keep (s.next l) ls

theorem fenced_keep (s : FenceState) (ls : List Line) : fenced s (keep s ls) = fenced s ls := by
  induction ls generalizing s with
  | nil => rfl
  | cons l ls ih =>
    rw [keep]
    split
    · rename_i h
      rw [h.2, ih, fenced_cons, proper_none.isDelimiter_blank h.1, proper_none.next_blank h.1,
        if_neg (by simp)]
    · rw [fenced_cons, fenced_cons, ih]

theorem written_keep (s : FenceState) (ls : List Line) : written (keep s ls) = written ls := by
  induction ls generalizing s with
  | nil => rfl
  | cons l ls ih =>
    rw [keep]
    split
    · rename_i h
      rw [ih, written_cons_of_blank h.1]
    · by_cases hl : isBlankText l = true
      · rw [written_cons_of_blank hl, written_cons_of_blank hl, ih]
      · rw [written_cons_of_solid hl, written_cons_of_solid hl, ih]

theorem keep_sublist (s : FenceState) (ls : List Line) : (keep s ls).Sublist ls := by
  induction ls generalizing s with
  | nil => exact List.Sublist.refl []
  | cons l ls ih =>
    rw [keep]
    split
    · exact (ih none).cons l
    · exact (ih (s.next l)).cons_cons l

/-- No line is a blank one outside fences, when lines are read in a state. -/
def Solid : FenceState → List Line → Prop
  | _, [] => True
  | s, l :: ls => (isBlankText l = true → s ≠ none) ∧ Solid (s.next l) ls

/-- Solid lines do not start with a blank one. -/
theorem Solid.head {ls : List Line} (h : Solid none ls) :
    ∀ l ∈ ls.head?, ¬ isBlankText l = true := by
  cases ls with
  | nil => exact fun l hl => nomatch hl
  | cons l ls =>
    intro m hm hblank
    rw [← Option.some.inj hm] at hblank
    exact h.1 hblank rfl

/-- Solid lines that leave no fence open do not end with a blank one. -/
theorem Solid.getLast {s : FenceState} (hs : Proper s) {ls : List Line} (h : Solid s ls)
    (hend : s.after ls = none) : ∀ l ∈ ls.getLast?, ¬ isBlankText l = true := by
  induction ls generalizing s with
  | nil => exact fun l hl => nomatch hl
  | cons l ls ih =>
    -- a blank last line would leave the state as it was, so a fence would be open
    rcases ls with _ | ⟨m, ls⟩
    · intro k hk hblank
      obtain rfl : l = k := Option.some.inj hk
      rw [after_cons, hs.next_blank hblank] at hend
      exact h.1 hblank hend
    · rw [List.getLast?_cons_cons]
      exact ih (hs.next l) h.2 hend

/-! ## Blocks -/

/-- Lines that make up a block: some, and none of them a blank one outside fences. -/
def IsBlock (b : List Line) : Prop := b ≠ [] ∧ Solid none b

theorem IsBlock.written_ne_nil {b : List Line} (h : IsBlock b) : written b ≠ [] := by
  obtain ⟨l, ls, rfl⟩ := List.exists_cons_of_ne_nil h.1
  rw [written_cons_of_solid (h.2.head l rfl)]
  exact List.cons_ne_nil _ _

theorem flatten_consBlock (b : List Line) (bs : List (List Line)) :
    (consBlock b bs).flatten = b ++ bs.flatten := by
  rcases b with _ | ⟨l, b⟩
  · rfl
  · rfl

theorem FenceState.Sealed.consBlock {t : FenceState} {b : List Line} {bs : List (List Line)}
    (h : Sealed t none (b :: bs)) : Sealed t none (consBlock b bs) := by
  rcases b with _ | ⟨l, b⟩
  · exact h.of_nil_cons
  · exact h

theorem forall_mem_consBlock {b : List Line} {bs : List (List Line)} (hb : Solid none b)
    (hbs : ∀ c ∈ bs, IsBlock c) : ∀ c ∈ consBlock b bs, IsBlock c := by
  rcases b with _ | ⟨l, b⟩
  · exact hbs
  · exact List.forall_mem_cons.mpr ⟨⟨List.cons_ne_nil l b, hb⟩, hbs⟩

theorem cutBlocks_blank {s : FenceState} {l : Line} (h : isBlankText l = true ∧ s = none)
    (ls : List Line) :
    cutBlocks s (l :: ls) = ([], consBlock (cutBlocks none ls).1 (cutBlocks none ls).2) := by
  rw [cutBlocks, if_pos h]

theorem cutBlocks_solid {s : FenceState} {l : Line} (h : ¬ (isBlankText l = true ∧ s = none))
    (ls : List Line) :
    cutBlocks s (l :: ls) =
      (l :: (cutBlocks (s.next l) ls).1, (cutBlocks (s.next l) ls).2) := by
  rw [cutBlocks, if_neg h]

theorem flatten_cutBlocks (s : FenceState) (ls : List Line) :
    (cutBlocks s ls).1 ++ (cutBlocks s ls).2.flatten = keep s ls := by
  induction ls generalizing s with
  | nil => rfl
  | cons l ls ih =>
    rw [keep]
    split
    · rename_i h
      rw [cutBlocks_blank h, List.nil_append, flatten_consBlock, ih]
    · rename_i h
      rw [cutBlocks_solid h, List.cons_append, ih]

theorem sealed_cutBlocks (s : FenceState) (ls : List Line) :
    Sealed (s.after ls) s ((cutBlocks s ls).1 :: (cutBlocks s ls).2) := by
  induction ls generalizing s with
  | nil => rfl
  | cons l ls ih =>
    by_cases h : isBlankText l = true ∧ s = none
    · obtain ⟨hl, rfl⟩ := h
      rw [cutBlocks_blank ⟨hl, rfl⟩, after_cons, proper_none.next_blank hl]
      exact sealed_cons rfl (ih none).consBlock
    · rw [cutBlocks_solid h]
      exact (ih (s.next l)).cons_line

theorem solid_cutBlocks (s : FenceState) (ls : List Line) :
    Solid s (cutBlocks s ls).1 ∧ ∀ b ∈ (cutBlocks s ls).2, IsBlock b := by
  induction ls generalizing s with
  | nil => exact ⟨trivial, fun b hb => nomatch hb⟩
  | cons l ls ih =>
    by_cases h : isBlankText l = true ∧ s = none
    · rw [cutBlocks_blank h]
      exact ⟨trivial, forall_mem_consBlock (ih none).1 (ih none).2⟩
    · rw [cutBlocks_solid h]
      exact ⟨⟨fun hl hs => h ⟨hl, hs⟩, (ih (s.next l)).1⟩, (ih (s.next l)).2⟩

/-- The blocks of lines hold all of them but the blank ones outside fences. -/
theorem flatten_blocks (ls : List Line) : (blocks ls).flatten = keep none ls := by
  rw [← flatten_cutBlocks, blocks, flatten_consBlock]

/-- **No fence reaches across blocks.** -/
theorem sealed_blocks (ls : List Line) : Sealed (after none ls) none (blocks ls) :=
  (sealed_cutBlocks none ls).consBlock

theorem isBlock_of_mem_blocks {ls : List Line} : ∀ b ∈ blocks ls, IsBlock b :=
  forall_mem_consBlock (solid_cutBlocks none ls).1 (solid_cutBlocks none ls).2

/-! ## The tail that a part hands on -/

theorem overlapTail_suffix (n : Nat) (part : List Line) : overlapTail n part <:+ part := by
  rw [overlapTail]
  split
  · exact List.nil_suffix
  · exact (List.dropWhile_suffix _).trans (List.drop_suffix _ _)

/-- The tail is no longer than asked for, and no longer than half of the part; one line is
allowed. -/
theorem length_overlapTail_le_min (n : Nat) (part : List Line) :
    (overlapTail n part).length ≤ min n (max 1 (part.length / 2)) := by
  rw [overlapTail]
  split
  · exact Nat.zero_le _
  · refine (List.dropWhile_suffix _).length_le.trans ?_
    rw [List.length_drop]
    omega

theorem length_overlapTail_le (n : Nat) (part : List Line) : (overlapTail n part).length ≤ n :=
  (length_overlapTail_le_min n part).trans (Nat.min_le_left _ _)

/-- The tail does not start with a blank line. -/
theorem head_overlapTail (n : Nat) (part : List Line) :
    ∀ l ∈ (overlapTail n part).head?, ¬ isBlankText l = true := by
  rw [overlapTail]
  split
  · exact fun l hl => nomatch hl
  · intro l hl hblank
    have hhead := List.head?_dropWhile_not isBlankText
      (part.drop (max (part.length - min n (max (part.length / 2) 1))
        (delimitedLength none part)))
    rw [Option.mem_def.mp hl] at hhead
    exact Bool.false_ne_true ((show isBlankText l = false from hhead) ▸ hblank)

/-- **The tail of a part whose fences are closed opens none.** -/
theorem plain_overlapTail (n : Nat) {part : List Line} (h : after none part = none) :
    ∀ l ∈ overlapTail n part, Plain l := by
  rw [overlapTail]
  split
  · exact fun l hl => absurd hl List.not_mem_nil
  · intro l hl
    exact plain_of_mem_drop h (Nat.le_max_right _ _) l ((List.dropWhile_suffix _).subset hl)

/-- The tail of a part whose fences are closed starts outside a fence. -/
theorem exists_append_overlapTail (n : Nat) {part : List Line} (h : after none part = none) :
    ∃ as, as ++ overlapTail n part = part ∧ after none as = none := by
  rw [overlapTail]
  split
  · exact ⟨part, List.append_nil part, h⟩
  · let start := max (part.length - min n (max (part.length / 2) 1)) (delimitedLength none part)
    refine ⟨part.take start ++ (part.drop start).takeWhile isBlankText, ?_, ?_⟩
    · rw [List.append_assoc, List.takeWhile_append_dropWhile, List.take_append_drop]
    · rw [after_append, after_take (Nat.le_max_right _ _), h]
      exact proper_none.after_blank fun l hl => List.mem_takeWhile_imp hl

/-! ## Extending a part -/

theorem extend_of_ne_nil {a : List Line} (h : a ≠ []) (b : List Line) :
    extend a b = a ++ [] :: b := by
  rw [extend, if_neg (mt List.isEmpty_iff.mp h)]

theorem extend_ne_nil (a : List Line) {b : List Line} (h : b ≠ []) : extend a b ≠ [] := by
  rcases eq_or_ne a [] with rfl | ha
  · exact h
  · rw [extend_of_ne_nil ha]
    exact List.append_ne_nil_of_left_ne_nil ha _

theorem extend_extend (a : List Line) {b : List Line} (h : b ≠ []) (c : List Line) :
    extend (extend a b) c = extend a (extend b c) := by
  rw [extend_of_ne_nil (extend_ne_nil a h), extend_of_ne_nil h]
  rcases eq_or_ne a [] with rfl | ha
  · rfl
  · rw [extend_of_ne_nil ha, extend_of_ne_nil ha, List.append_assoc]
    rfl

theorem written_extend (a b : List Line) : written (extend a b) = written a ++ written b := by
  rcases eq_or_ne a [] with rfl | ha
  · rfl
  · rw [extend_of_ne_nil ha, written_append, written_cons_of_blank rfl]

theorem after_extend {a : List Line} (h : after none a = none) (b : List Line) :
    after none (extend a b) = after none b := by
  rcases eq_or_ne a [] with rfl | ha
  · rfl
  · rw [extend_of_ne_nil ha, after_append, h]
    rfl

theorem fenced_extend {a : List Line} (h : after none a = none) (b : List Line) :
    fenced none (extend a b) = fenced none a ++ fenced none b := by
  rcases eq_or_ne a [] with rfl | ha
  · rfl
  · rw [extend_of_ne_nil ha, fenced_append, h]
    rfl

/-- Two groups that no fence reaches across may be put together. -/
theorem FenceState.Sealed.extend_cons {t : FenceState} {a b : List Line} {bs : List (List Line)}
    (h : Sealed t none (a :: b :: bs)) : Sealed t none (extend a b :: bs) := by
  rcases bs with _ | ⟨c, bs⟩
  · exact (after_extend h.1 b).trans h.2
  · exact ⟨(after_extend h.1 b).trans h.2.1, h.2.2⟩

theorem getLast?_extend (a : List Line) {b : List Line} (h : b ≠ []) :
    (extend a b).getLast? = b.getLast? := by
  rcases eq_or_ne a [] with rfl | ha
  · rfl
  · rw [extend_of_ne_nil ha, List.getLast?_append_of_ne_nil _ (List.cons_ne_nil _ _)]
    obtain ⟨l, ls, rfl⟩ := List.exists_cons_of_ne_nil h
    rw [List.getLast?_cons_cons]

/-! ## Parcels -/

/-- A part with its lines told apart. -/
structure Parcel where
  /-- the lines taken over from the part before -/
  carried : List Line
  /-- its own lines -/
  own : List Line

/-- The lines of the part. -/
def Parcel.lines (q : Parcel) : List Line := extend q.carried q.own

/-- Pack blocks onto the parcel in progress. -/
def parcels (max overlap : Nat) (q : Parcel) : List (List Line) → List Parcel
  | [] => [q]
  | b :: bs =>
    if joinedLength q.lines + 2 + joinedLength b > max then
      q :: parcels max overlap ⟨overlapTail overlap q.lines, b⟩ bs
    else parcels max overlap ⟨q.carried, extend q.own b⟩ bs

variable {max overlap : Nat}

/-- The lines of the parcels are the parts. -/
theorem map_lines_parcels {q : Parcel} (hq : q.own ≠ []) {bs : List (List Line)}
    (hbs : ∀ b ∈ bs, IsBlock b) :
    (parcels max overlap q bs).map Parcel.lines = pack max overlap q.lines bs := by
  induction bs generalizing q with
  | nil => rfl
  | cons b bs ih =>
    obtain ⟨hb, hbs⟩ := List.forall_mem_cons.mp hbs
    rw [parcels, pack]
    split
    · rw [List.map_cons, ih hb.1 hbs]
      rfl
    · rw [ih (extend_ne_nil q.own hb.1) hbs, Parcel.lines, Parcel.lines, extend_extend _ hq]

variable (max overlap) in
/-- Packing goes on with the parcel in progress: the first parcel carries what that one carries. -/
theorem parcels_eq_cons (q : Parcel) (bs : List (List Line)) :
    ∃ r rs, parcels max overlap q bs = r :: rs ∧ r.carried = q.carried := by
  induction bs generalizing q with
  | nil => exact ⟨q, [], rfl, rfl⟩
  | cons b bs ih =>
    rw [parcels]
    split
    · exact ⟨q, _, rfl, rfl⟩
    · exact ih ⟨q.carried, extend q.own b⟩

/-- The own lines of the parcels are what is packed. -/
theorem flatMap_written_parcels (q : Parcel) (bs : List (List Line)) :
    (parcels max overlap q bs).flatMap (fun r => written r.own) =
      written q.own ++ bs.flatMap written := by
  induction bs generalizing q with
  | nil => rfl
  | cons b bs ih =>
    rw [parcels]
    split
    · rw [List.flatMap_cons, ih, List.flatMap_cons]
    · rw [ih, written_extend, List.flatMap_cons, List.append_assoc]

variable (max overlap) in
/-- **No fence reaches across parcels, and none is cut.** -/
theorem sealed_parcels {t : FenceState} {q : Parcel} {bs : List (List Line)}
    (h : Sealed t none (q.own :: bs)) :
    Sealed t none ((parcels max overlap q bs).map Parcel.own) ∧
      (parcels max overlap q bs).flatMap (fun r => fenced none r.own) =
        fenced none q.own ++ bs.flatMap (fenced none) := by
  induction bs generalizing q with
  | nil => exact ⟨h, rfl⟩
  | cons b bs ih =>
    rw [parcels]
    split
    · obtain ⟨hsealed, hfenced⟩ := ih (q := ⟨overlapTail overlap q.lines, b⟩) h.2
      refine ⟨sealed_cons h.1 hsealed, ?_⟩
      rw [List.flatMap_cons, hfenced, List.flatMap_cons]
    · obtain ⟨hsealed, hfenced⟩ := ih (q := ⟨q.carried, extend q.own b⟩) h.extend_cons
      refine ⟨hsealed, ?_⟩
      rw [hfenced, fenced_extend h.1, List.flatMap_cons, List.append_assoc]

/-- What every parcel is like: it carries lines that open no fence, the first of them not blank, and
has something written on lines of its own. -/
structure Parcel.Sound (q : Parcel) : Prop where
  /-- the carried lines open no fence -/
  plain : ∀ l ∈ q.carried, Plain l
  /-- the carried lines do not start with a blank one -/
  head : ∀ l ∈ q.carried.head?, ¬ isBlankText l = true
  /-- not all own lines are blank -/
  own : written q.own ≠ []

theorem Parcel.sound_of_written {own : List Line} (h : written own ≠ []) :
    (⟨[], own⟩ : Parcel).Sound where
  plain := fun _ hl => absurd hl List.not_mem_nil
  head := fun _ hl => nomatch hl
  own := h

theorem Parcel.Sound.after_lines {q : Parcel} (h : q.Sound) :
    after none q.lines = after none q.own :=
  after_extend (after_none_plain h.plain) q.own

theorem Parcel.Sound.fenced_lines {q : Parcel} (h : q.Sound) :
    fenced none q.lines = fenced none q.own := by
  rw [Parcel.lines, fenced_extend (after_none_plain h.plain), fenced_none_plain h.plain,
    List.nil_append]

/-- The second parcel carries at most so many of the last lines of the first, which does not end
with a blank line. -/
structure Follows (overlap : Nat) (q r : Parcel) : Prop where
  /-- what is carried is the end of the parcel before, and starts outside a fence there -/
  suffix : ∃ as, as ++ r.carried = q.lines ∧ after none as = none
  /-- no more is carried than may be -/
  length_le : r.carried.length ≤ overlap
  /-- the parcel before does not end with a blank line -/
  getLast : ∀ l ∈ q.lines.getLast?, ¬ isBlankText l = true

/-- The own lines end with a line that is not blank, unless a fence is open there. -/
def Parcel.Ended (q : Parcel) : Prop :=
  after none q.own = none → ∀ l ∈ q.own.getLast?, ¬ isBlankText l = true

theorem IsBlock.ended {b : List Line} (h : IsBlock b) (carried : List Line) :
    (⟨carried, b⟩ : Parcel).Ended :=
  h.2.getLast proper_none

variable (max overlap) in
/-- **Every parcel is sound and follows from the one before it.** -/
theorem sound_parcels {t : FenceState} {q : Parcel} {bs : List (List Line)} (hq : q.Sound)
    (hend : q.Ended) (hown : q.own ≠ []) (hbs : ∀ b ∈ bs, IsBlock b)
    (h : Sealed t none (q.own :: bs)) :
    (∀ r ∈ parcels max overlap q bs, r.Sound) ∧
      List.IsChain (Follows overlap) (parcels max overlap q bs) := by
  induction bs generalizing q with
  | nil => exact ⟨List.forall_mem_singleton.mpr hq, List.IsChain.singleton q⟩
  | cons b bs ih =>
    obtain ⟨hb, hbs⟩ := List.forall_mem_cons.mp hbs
    have hclosed : after none q.lines = none := hq.after_lines.trans h.1
    rw [parcels]
    split
    · -- the parcel is full: its tail goes on to a new one
      have hnext : (⟨overlapTail overlap q.lines, b⟩ : Parcel).Sound :=
        ⟨plain_overlapTail overlap hclosed, head_overlapTail overlap q.lines, hb.written_ne_nil⟩
      obtain ⟨hsound, hchain⟩ := ih hnext (hb.ended _) hb.1 hbs h.2
      obtain ⟨r, rs, hr, hcarried⟩ :=
        parcels_eq_cons max overlap ⟨overlapTail overlap q.lines, b⟩ bs
      have hfollows : Follows overlap q r := by
        refine ⟨?_, ?_, ?_⟩
        · rw [hcarried]
          exact exists_append_overlapTail overlap hclosed
        · rw [hcarried]
          exact length_overlapTail_le overlap q.lines
        · rw [Parcel.lines, getLast?_extend _ hown]
          exact hend h.1
      refine ⟨List.forall_mem_cons.mpr ⟨hq, hsound⟩, ?_⟩
      rw [hr] at hchain ⊢
      exact List.isChain_cons_cons.mpr ⟨hfollows, hchain⟩
    · -- the block is added to the parcel
      have hnext : (⟨q.carried, extend q.own b⟩ : Parcel).Sound := by
        refine ⟨hq.plain, hq.head, ?_⟩
        rw [written_extend]
        exact List.append_ne_nil_of_left_ne_nil hq.own _
      have hended : (⟨q.carried, extend q.own b⟩ : Parcel).Ended := by
        rw [Parcel.Ended, after_extend h.1, getLast?_extend _ hb.1]
        exact hb.ended []
      exact ih hnext hended (extend_ne_nil q.own hb.1) hbs (h.extend_cons)

theorem forall_mem_extend {P : Line → Prop} (hnil : P []) {a b : List Line} (ha : ∀ l ∈ a, P l)
    (hb : ∀ l ∈ b, P l) : ∀ l ∈ extend a b, P l := by
  rcases eq_or_ne a [] with rfl | hne
  · exact hb
  · rw [extend_of_ne_nil hne]
    exact List.forall_mem_append.mpr ⟨ha, List.forall_mem_cons.mpr ⟨hnil, hb⟩⟩

/-- Parcels hold no lines but those that are packed, and empty ones between them. -/
theorem forall_mem_lines_parcels {P : Line → Prop} (hnil : P []) {q : Parcel}
    {bs : List (List Line)} (hcarried : ∀ l ∈ q.carried, P l) (hown : ∀ l ∈ q.own, P l)
    (hbs : ∀ b ∈ bs, ∀ l ∈ b, P l) :
    ∀ r ∈ parcels max overlap q bs, ∀ l ∈ r.lines, P l := by
  have hlines : ∀ l ∈ q.lines, P l := forall_mem_extend hnil hcarried hown
  induction bs generalizing q with
  | nil => exact List.forall_mem_singleton.mpr hlines
  | cons b bs ih =>
    obtain ⟨hb, hbs⟩ := List.forall_mem_cons.mp hbs
    rw [parcels]
    split
    · have htail : ∀ l ∈ overlapTail overlap q.lines, P l := fun l hl =>
        hlines l ((overlapTail_suffix overlap q.lines).subset hl)
      exact List.forall_mem_cons.mpr
        ⟨hlines, ih htail hb hbs (forall_mem_extend hnil htail hb)⟩
    · have hnext : ∀ l ∈ extend q.own b, P l := forall_mem_extend hnil hown hb
      exact ih hcarried hnext hbs (forall_mem_extend hnil hcarried hnext)

end MarkdownIndex.Markdown
