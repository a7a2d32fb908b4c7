import Mathlib.Order.Bounds.Basic
import MarkdownIndex.Proofs.Markdown.Block

/-!
# Packing: greedy, and with the fewest parts

When no lines are taken over, a part is a row of blocks with empty lines between them, and packing
never looks ahead. It makes no more parts than it has to all the same: however the blocks are
divided into groups that are single or not too long, there are at least as many groups.

* `groupLength` — the length of a group of blocks; `joinedLength_foldl_extend` — it is that of the
  part that they make.
* `Division` — blocks divided into groups.
* `length_pack_exchange` — a shorter part in progress does no harm, and a longer one costs one part
  at most. This is what the greedy choice rests on.
* `Division.length_pack_le`, `isLeast_length_parts` — **the parts of a section are as few as can
be.** -/

namespace MarkdownIndex.Markdown

open Text

variable {max : Nat} {ls p q b : List Line} {g bs : List (List Line)}
variable {gs : List (List (List Line))}

/-! ## Groups of blocks -/

/-- The length of a group of blocks: their own lengths, and two more at each junction. -/
def groupLength : List (List Line) → Nat
  | [] => 0
  | [b] => joinedLength b
  | b :: c :: g => joinedLength b + 2 + groupLength (c :: g)

/-- Blocks divided into groups, in order. -/
structure Division (max : Nat) (bs : List (List Line)) (gs : List (List (List Line))) : Prop where
  /-- the groups hold the blocks, one after the other -/
  flatten_eq : gs.flatten = bs
  /-- a group is a single block or not too long -/
  fits : ∀ g ∈ gs, (∃ b, g = [b]) ∨ groupLength g ≤ max

/-- What is not too long for a limit is not too long for a greater one. -/
theorem Division.mono {max' : Nat} (h : Division max bs gs) (hmax : max ≤ max') :
    Division max' bs gs where
  flatten_eq := h.flatten_eq
  fits := fun g hg => (h.fits g hg).imp_right fun hfits => hfits.trans hmax

theorem joinedLength_le_groupLength (b : List Line) (g : List (List Line)) :
    joinedLength b ≤ groupLength (b :: g) := by
  cases g with
  | nil => exact Nat.le_refl _
  | cons c g =>
    rw [groupLength]
    omega

/-- Two blocks in front that are joined count as one. -/
theorem groupLength_extend_cons {c : List Line} (hb : b ≠ []) (hc : c ≠ []) :
    groupLength (extend b c :: g) = groupLength (b :: c :: g) := by
  cases g with
  | nil => exact joinedLength_extend hb hc
  | cons d g =>
    rw [groupLength, groupLength, groupLength, joinedLength_extend hb hc]
    omega

/-- **The part that a group of blocks makes is as long as the group.** -/
theorem joinedLength_foldl_extend (hb : b ≠ []) (hg : ∀ c ∈ g, c ≠ []) :
    joinedLength (g.foldl extend b) = groupLength (b :: g) := by
  induction g generalizing b with
  | nil => rfl
  | cons c g ih =>
    obtain ⟨hc, hg⟩ := List.forall_mem_cons.mp hg
    rw [List.foldl_cons, ih (extend_ne_nil b hc) hg, groupLength_extend_cons hb hc]

/-! ## The greedy choice -/

/-- Without overlap a new part starts with the block that was too much for the one before. -/
theorem pack_cons (max : Nat) (p b : List Line) (bs : List (List Line)) :
    pack max 0 p (b :: bs) =
      if max < joinedLength p + 2 + joinedLength b then p :: pack max 0 b bs
      else pack max 0 (extend p b) bs := rfl

/-- Blocks that still fit are added to the part in progress. -/
theorem pack_append_of_fits (hp : p ≠ []) (hg : ∀ c ∈ g, c ≠ [])
    (hfits : g = [] ∨ groupLength (p :: g) ≤ max) (bs : List (List Line)) :
    pack max 0 p (g ++ bs) = pack max 0 (g.foldl extend p) bs := by
  induction g generalizing p with
  | nil => rfl
  | cons c g ih =>
    obtain ⟨hc, hg⟩ := List.forall_mem_cons.mp hg
    have hlength : groupLength (p :: c :: g) ≤ max := hfits.resolve_left (List.cons_ne_nil c g)
    have hnext : joinedLength p + 2 + joinedLength c ≤ max := by
      rw [← joinedLength_extend hp hc]
      exact (joinedLength_le_groupLength _ g).trans (groupLength_extend_cons hp hc ▸ hlength)
    rw [List.cons_append, pack_cons, if_neg (Nat.not_lt.mpr hnext), List.foldl_cons]
    exact ih (extend_ne_nil p hc) hg (Or.inr (groupLength_extend_cons hp hc ▸ hlength))

/-- **The exchange argument.** A part in progress that is no longer than another one leads to no
more parts, and any part in progress leads to at most one part more than another. Neither half can
do without the other: where just one of the two parts is full, each turns into the other. -/
theorem length_pack_exchange (hbs : ∀ b ∈ bs, b ≠ []) :
    (∀ p q : List Line, p ≠ [] → q ≠ [] → joinedLength p ≤ joinedLength q →
      (pack max 0 p bs).length ≤ (pack max 0 q bs).length) ∧
    ∀ p q : List Line, p ≠ [] → q ≠ [] →
      (pack max 0 p bs).length ≤ (pack max 0 q bs).length + 1 := by
  induction bs with
  | nil => exact ⟨fun p q _ _ _ => Nat.le_refl 1, fun p q _ _ => Nat.le_succ 1⟩
  | cons b bs ih =>
    obtain ⟨hb, hbs⟩ := List.forall_mem_cons.mp hbs
    obtain ⟨hmono, hsucc⟩ := ih hbs
    have hne : ∀ p : List Line, extend p b ≠ [] := fun p => extend_ne_nil p hb
    have hextend : ∀ p : List Line, p ≠ [] →
        joinedLength (extend p b) = joinedLength p + 2 + joinedLength b :=
      fun p hp => joinedLength_extend hp hb
    constructor
    · intro p q hp hq hle
      rw [pack_cons, pack_cons]
      split_ifs with hfull hfull'
      · exact Nat.le_refl _
      · omega
      · -- the longer part is full, and the shorter one takes the block as well
        exact hsucc _ b (hne p) hb
      · refine hmono _ _ (hne p) (hne q) ?_
        rw [hextend p hp, hextend q hq]
        omega
    · intro p q hp hq
      rw [pack_cons, pack_cons]
      split_ifs with hfull hfull'
      · exact Nat.le_succ _
      · -- the block alone is no longer than the part that takes it
        refine Nat.succ_le_succ (hmono b _ hb (hne q) ?_)
        rw [hextend q hq]
        omega
      · exact (hsucc _ b (hne p) hb).trans (Nat.le_succ _)
      · exact hsucc _ _ (hne p) (hne q)

/-- A part in progress costs at most one part: it could be left as it is. -/
theorem length_pack_cons_le (p : List Line) (hbs : ∀ c ∈ b :: bs, c ≠ []) :
    (pack max 0 p (b :: bs)).length ≤ (pack max 0 b bs).length + 1 := by
  obtain ⟨hb, hbs⟩ := List.forall_mem_cons.mp hbs
  rw [pack_cons]
  split
  · exact Nat.le_refl _
  · exact (length_pack_exchange hbs).2 _ b (extend_ne_nil p hb) hb

/-- **No division has fewer groups than packing makes parts.** -/
theorem Division.length_pack_le (h : Division max (b :: bs) gs) (hbs : ∀ c ∈ b :: bs, c ≠ []) :
    (pack max 0 b bs).length ≤ gs.length := by
  -- the induction is on the groups, the first of which packing does not stop short of
  induction gs generalizing b bs with
  | nil => cases h.flatten_eq
  | cons g gs ih =>
    obtain ⟨hfirst, hlater⟩ := List.forall_mem_cons.mp h.fits
    rcases g with _ | ⟨c, g⟩
    · exact (ih ⟨h.flatten_eq, hlater⟩ hbs).trans (Nat.le_succ _)
    · have hflatten : c :: (g ++ gs.flatten) = b :: bs := h.flatten_eq
      obtain ⟨rfl, rfl⟩ := List.cons.inj hflatten
      obtain ⟨hc, hgrest⟩ := List.forall_mem_cons.mp hbs
      obtain ⟨hg, hrest⟩ := List.forall_mem_append.mp hgrest
      have hfits : g = [] ∨ groupLength (c :: g) ≤ max :=
        hfirst.imp_left fun ⟨_, hsingle⟩ => (List.cons.inj hsingle).2
      rw [pack_append_of_fits hc hg hfits]
      rcases hgs : gs.flatten with _ | ⟨d, ds⟩
      · exact Nat.le_add_left 1 _
      · rw [hgs] at hrest
        exact (length_pack_cons_le _ hrest).trans (Nat.succ_le_succ (ih ⟨hgs, hlater⟩ hrest))

/-! ## The parts of a section -/

/-- The parts of a section are a division of its blocks. -/
theorem exists_division_parts (max : Nat) (ls : List Line) :
    ∃ gs, Division max (blocks ls) gs ∧ gs.length = (parts max 0 ls).length := by
  obtain ⟨gs, hflatten, hdealt⟩ := exists_dealt max 0 ls
  refine ⟨gs, ⟨hflatten, fun g hg => ?_⟩, hdealt.length_eq⟩
  have hblocks : ∀ b ∈ g, b ≠ [] := fun b hb =>
    (isBlock_of_mem_blocks b (hflatten ▸ List.mem_flatten_of_mem hg hb)).1
  obtain ⟨i, hi, rfl⟩ := List.mem_iff_getElem.mp hg
  have hlt : i < (parts max 0 ls).length := hdealt.length_eq ▸ hi
  have hpart := List.getElem?_eq_getElem hlt
  have hgroup := List.getElem?_eq_getElem hi
  obtain ⟨b, g, hbg⟩ := List.exists_cons_of_ne_nil (hdealt.ne_nil _ hg)
  rw [hbg] at hblocks hgroup ⊢
  obtain ⟨hb, hg⟩ := List.forall_mem_cons.mp hblocks
  rcases Nat.lt_or_ge max (joinedLength (parts max 0 ls)[i]) with hlarge | hfits
  · exact Or.inl (hdealt.single hpart hgroup hlarge)
  · have hnothing : takenOver 0 [] (parts max 0 ls) i = [] := by cases i <;> rfl
    have heq : (parts max 0 ls)[i] = g.foldl extend b := by
      rw [hdealt.part_eq hpart hgroup, hnothing]
      rfl
    rw [heq, joinedLength_foldl_extend hb hg] at hfits
    exact Or.inr hfits

/-- **The parts of a section are as few as can be.** -/
theorem isLeast_length_parts (max : Nat) (ls : List Line) :
    IsLeast {n | ∃ gs, Division max (blocks ls) gs ∧ gs.length = n} (parts max 0 ls).length := by
  refine ⟨exists_division_parts max ls, ?_⟩
  rintro _ ⟨gs, hgs, rfl⟩
  have hblocks : ∀ b ∈ blocks ls, b ≠ [] := fun b hb => (isBlock_of_mem_blocks b hb).1
  rw [parts]
  cases hbs : blocks ls with
  | nil => exact Nat.zero_le _
  | cons b bs =>
    rw [hbs] at hgs hblocks
    exact hgs.length_pack_le hblocks

/-- A greater limit makes no more parts. -/
theorem length_parts_le {max max' : Nat} (h : max ≤ max') (ls : List Line) :
    (parts max' 0 ls).length ≤ (parts max 0 ls).length := by
  obtain ⟨gs, hgs, hlength⟩ := exists_division_parts max ls
  exact (isLeast_length_parts max' ls).2 ⟨gs, hgs.mono h, hlength⟩

end MarkdownIndex.Markdown
