import MarkdownIndex.Proofs.Markdown.Block

/-!
# Overlap: what a part takes over, and how long parts get

A part after the first opens with lines of the part before it. Which lines those may be is said here
of the part alone: its last ones, up to a number and up to half of it, none of them a delimiter or
inside a fence. The lines that are taken over are then shown to be the longest such tail, and parts
are shown not to grow by taking over parts of parts.

* `Admissible`, `Longest` — a tail that may be handed on; one than which none is longer.
* `longest_overlapTail` — what a part whose fences are closed hands on is the longest such tail.
* `sealed_parts` — no fence reaches across parts, so that every part but the last is of that kind.
* `exists_longest_of_parts` — what consecutive parts have to do with each other.
* `longestBlock`, `length_le_of_mem_parts` — the number of lines of a part, by those of its blocks.
-/

namespace MarkdownIndex.Markdown

open Text FenceState

variable {n : Nat} {s : FenceState} {as p part t tail : List Line} {ls : List Line}

/-! ## Tails that may be handed on -/

/-- Lines that a part may hand on when `n` are asked for. -/
structure Admissible (n : Nat) (part tail : List Line) : Prop where
  /-- they are its last ones, none of them a delimiter or inside a fence there -/
  suffix : ∃ as, part = as ++ tail ∧ fenced (after none as) tail = []
  /-- no more than asked for, and no more than half of the part; one is allowed -/
  length_le : tail.length ≤ min n (max 1 (part.length / 2))
  /-- the first is not blank -/
  head : ∀ l ∈ tail.head?, ¬ isBlankText l = true

/-- Of the lines that a part may hand on the most. -/
structure Longest (n : Nat) (part tail : List Line) : Prop where
  /-- they may be handed on -/
  admissible : Admissible n part tail
  /-- and so may no more -/
  longest : ∀ t, Admissible n part t → t.length ≤ tail.length

/-! ## The longest tail -/

/-- Lines that are not fenced have no delimiter. -/
theorem delimitedLength_eq_zero_of_fenced (h : fenced s ls = []) : delimitedLength s ls = 0 := by
  induction ls generalizing s with
  | nil => rfl
  | cons l ls ih =>
    rw [fenced_cons] at h
    split at h
    · cases h
    · rename_i hplain
      rw [delimitedLength_cons_of_zero (ih h), if_neg fun hl => hplain (Or.inr hl)]

/-- Lines in which no delimiter comes after some point have their last one before it. -/
theorem delimitedLength_append_le (h : delimitedLength (s.after as) ls = 0) :
    delimitedLength s (as ++ ls) ≤ as.length := by
  induction as generalizing s with
  | nil => exact Nat.le_of_eq h
  | cons l as ih =>
    have ih' := ih (s := s.next l) h
    rw [List.cons_append, List.length_cons]
    rcases hn : delimitedLength (s.next l) (as ++ ls) with _ | n
    · rw [delimitedLength_cons_of_zero hn]
      split
      · exact Nat.succ_le_succ (Nat.zero_le _)
      · exact Nat.zero_le _
    · rw [delimitedLength_cons_of_succ hn]
      rw [hn] at ih'
      exact Nat.succ_le_succ ih'

/-- Dropping blank lines at the start stops at a line that is not blank. -/
theorem suffix_dropWhile_append (h : ∀ l ∈ t.head?, ¬ isBlankText l = true) (as : List Line) :
    t <:+ (as ++ t).dropWhile isBlankText := by
  induction as with
  | nil =>
    rcases t with _ | ⟨l, t⟩
    · exact List.nil_suffix
    · have hkeep : (l :: t).dropWhile isBlankText = l :: t :=
        List.dropWhile_cons_of_neg (h l rfl)
      exact ⟨[], hkeep.symm⟩
  | cons l as ih =>
    rw [List.cons_append, List.dropWhile_cons]
    split
    · exact ih
    · exact (List.suffix_append as t).trans (List.suffix_cons l _)

/-- What may be handed on is part of what is. -/
theorem Admissible.suffix_overlapTail (h : Admissible n part t) : t <:+ overlapTail n part := by
  obtain ⟨as, rfl, hfenced⟩ := h.suffix
  have hlength := h.length_le
  have hdelimited : delimitedLength none (as ++ t) ≤ as.length :=
    delimitedLength_append_le (delimitedLength_eq_zero_of_fenced hfenced)
  rw [overlapTail]
  split
  · rename_i hn
    have hnil : t = [] := List.eq_nil_of_length_eq_zero (by omega)
    exact hnil ▸ List.nil_suffix
  · -- the tail starts where the lines in question do, or before
    have hstart : max ((as ++ t).length - min n (max ((as ++ t).length / 2) 1))
        (delimitedLength none (as ++ t)) ≤ as.length := by
      rw [List.length_append] at hlength ⊢
      omega
    simp only
    rw [List.drop_append_of_le_length hstart]
    exact suffix_dropWhile_append h.head _

/-- **A part whose fences are closed hands on the longest tail that it may hand on.** -/
theorem longest_overlapTail (n : Nat) (h : after none part = none) :
    Longest n part (overlapTail n part) := by
  obtain ⟨as, has, hafter⟩ := exists_append_overlapTail n h
  refine ⟨⟨⟨as, has.symm, ?_⟩, length_overlapTail_le_min n part, head_overlapTail n part⟩,
    fun t ht => ht.suffix_overlapTail.length_le⟩
  rw [hafter]
  exact fenced_none_plain (plain_overlapTail n h)

/-! ## Consecutive parts -/

/-- **No fence reaches across parts,** although they take over lines. -/
theorem sealed_parts (limit overlap : Nat) (ls : List Line) :
    Sealed (after none ls) none (parts limit overlap ls) := by
  have hsealed := sealed_blocks ls
  have hblocks : ∀ b ∈ blocks ls, IsBlock b := isBlock_of_mem_blocks
  rw [parts]
  rcases hls : blocks ls with _ | ⟨b, bs⟩
  · rw [hls] at hsealed
    exact hsealed
  · rw [hls] at hsealed hblocks
    obtain ⟨hb, hbs⟩ := List.forall_mem_cons.mp hblocks
    have hq : (⟨[], b⟩ : Parcel).Sound := Parcel.sound_of_written hb.written_ne_nil
    obtain ⟨hsound, -⟩ := sound_parcels limit overlap hq (hb.ended []) hb.1 hbs hsealed
    have hlines : (parcels limit overlap ⟨[], b⟩ bs).map Parcel.lines = pack limit overlap b bs :=
      map_lines_parcels (q := ⟨[], b⟩) hb.1 hbs
    show Sealed (after none ls) none (pack limit overlap b bs)
    rw [← hlines]
    -- what a parcel takes over opens no fence, so it ends where its own lines do
    exact (sealed_parcels limit overlap (q := ⟨[], b⟩) hsealed).1.map fun q hq =>
      (hsound q hq).after_lines

/-- A part that another follows leaves no fence open. -/
theorem after_of_getElem?_parts {limit overlap i : Nat} {q : List Line}
    (hp : (parts limit overlap ls)[i]? = some p) (hq : (parts limit overlap ls)[i + 1]? = some q) :
    after none p = none := by
  refine (sealed_parts limit overlap ls).after_of_mem_dropLast ?_
  obtain ⟨hlt, -⟩ := List.getElem?_eq_some_iff.mp hq
  refine List.mem_of_getElem? (i := i) ?_
  rw [List.getElem?_dropLast, if_pos (by omega), hp]

/-- An empty line between what is taken over and what comes behind it; none if nothing is. -/
theorem extend_eq_append (t b : List Line) :
    extend t b = t ++ (if t = [] then [] else [[]]) ++ b := by
  rcases eq_or_ne t [] with rfl | hne
  · rfl
  · rw [extend_of_ne_nil hne, if_neg hne, List.append_assoc, List.singleton_append]

/-- The first item of a group is the one that comes next after those of the groups before. -/
theorem getElem?_flatten_take {α : Type} {gs : List (List α)} {i : Nat} {a : α} {g : List α}
    (h : gs[i]? = some (a :: g)) : gs.flatten[(gs.take i).flatten.length]? = some a := by
  induction gs generalizing i with
  | nil => cases h
  | cons g' gs ih =>
    cases i with
    | zero =>
      obtain rfl := Option.some.inj h
      rfl
    | succ i =>
      rw [List.take_succ_cons, List.flatten_cons, List.flatten_cons, List.length_append,
        List.getElem?_append_right (Nat.le_add_right _ _), Nat.add_sub_cancel_left]
      exact ih h

/-- **A part takes over the longest tail that the part before it may hand on.** The blocks of some
lines are dealt out to the parts in order; and a part that follows another starts with the longest
such tail of that one, then an empty line if there is a tail, and then the first block that no
earlier part has. -/
theorem exists_longest_of_parts (limit overlap : Nat) (ls : List Line) :
    ∃ gs, gs.flatten = blocks ls ∧ Dealt limit overlap [] (parts limit overlap ls) gs ∧
      ∀ i p q, (parts limit overlap ls)[i]? = some p → (parts limit overlap ls)[i + 1]? = some q →
        ∃ t b, Longest overlap p t ∧ (blocks ls)[(gs.take (i + 1)).flatten.length]? = some b ∧
          t ++ (if t = [] then [] else [[]]) ++ b <+: q := by
  obtain ⟨gs, hflatten, hdealt⟩ := exists_dealt limit overlap ls
  refine ⟨gs, hflatten, hdealt, fun i p q hp hq => ?_⟩
  have hlt : i + 1 < gs.length := by
    rw [hdealt.length_eq]
    exact (List.getElem?_eq_some_iff.mp hq).1
  have hgroup := List.getElem?_eq_getElem hlt
  obtain ⟨b, g, hg⟩ := List.exists_cons_of_ne_nil (hdealt.ne_nil _ (List.getElem_mem hlt))
  rw [hg] at hgroup
  refine ⟨overlapTail overlap p, b, longest_overlapTail overlap (after_of_getElem?_parts hp hq),
    hflatten ▸ getElem?_flatten_take hgroup, ?_⟩
  have hpart := hdealt.part_eq hq hgroup
  rw [takenOver, hp, Option.getD_some, List.foldl_cons] at hpart
  rw [hpart, ← extend_eq_append]
  exact prefix_foldl_extend _ g

/-! ## The number of lines of a part -/

/-- The number of lines of the longest block among some lines. -/
def longestBlock (ls : List Line) : Nat :=
  ((blocks ls).map List.length).max?.getD 0

theorem length_le_longestBlock {b : List Line} (hb : b ∈ blocks ls) :
    b.length ≤ longestBlock ls :=
  List.le_max?_getD_of_mem (List.mem_map_of_mem hb)

theorem length_le_joinedLength (p : List Line) : p.length ≤ joinedLength p + 1 := by
  rw [joinedLength]
  omega

theorem length_extend_le (a b : List Line) : (extend a b).length ≤ a.length + 1 + b.length := by
  rcases eq_or_ne a [] with rfl | hne
  · exact Nat.le_add_left _ _
  · rw [extend_of_ne_nil hne, List.length_append, List.length_cons]
    omega

variable {limit overlap most : Nat} {bs : List (List Line)}

/-- Half of a part, an empty line and a block: this is where parts stop to grow. -/
theorem length_le_of_mem_pack (hp : p.length ≤ max (2 * most + 2) (limit + 1))
    (hbs : ∀ b ∈ bs, b.length ≤ most) :
    ∀ q ∈ pack limit overlap p bs, q.length ≤ max (2 * most + 2) (limit + 1) := by
  induction bs generalizing p with
  | nil => exact List.forall_mem_singleton.mpr hp
  | cons b bs ih =>
    obtain ⟨hb, hbs⟩ := List.forall_mem_cons.mp hbs
    rw [pack]
    split
    · have htail := length_overlapTail_le_min overlap p
      have hnext := length_extend_le (overlapTail overlap p) b
      exact List.forall_mem_cons.mpr ⟨hp, ih (by omega) hbs⟩
    · -- the part is not too large with the block, so it has no more lines than characters
      have hnext := length_extend_le p b
      have hlines := length_le_joinedLength p
      have hlines' := length_le_joinedLength b
      exact ih (by omega) hbs

/-- **Parts do not grow,** however many there are and however much is asked to be taken over. -/
theorem length_le_of_mem_parts :
    ∀ p ∈ parts limit overlap ls, p.length ≤ max (2 * longestBlock ls + 2) (limit + 1) := by
  have hblocks : ∀ b ∈ blocks ls, b.length ≤ longestBlock ls := fun b => length_le_longestBlock
  rw [parts]
  rcases hls : blocks ls with _ | ⟨b, bs⟩
  · exact fun p hp => absurd hp List.not_mem_nil
  · rw [hls] at hblocks
    obtain ⟨hb, hbs⟩ := List.forall_mem_cons.mp hblocks
    exact length_le_of_mem_pack (by omega) hbs

end MarkdownIndex.Markdown
