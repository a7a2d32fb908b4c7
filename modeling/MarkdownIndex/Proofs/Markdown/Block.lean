import MarkdownIndex.Proofs.Markdown.Part

/-!
# Blocks: what is cut, and where

A block is a maximal row of lines with no blank line outside a fence. That is said here of positions
among the lines of a section (`Maximal`), without the machine that cuts; the blocks that are cut are
then shown to be those rows, and the parts of a section to be groups of them.

* `Rests`, `Maximal` — a row of lines that what follows it ends; one that what stands before it
  begins as well.
* `mem_blocks_iff` — the blocks of some lines are the maximal rows among them.
* `exists_mem_blocks` — every row of lines without a blank one outside a fence lies in a block.
* `Dealt`, `exists_dealt` — how blocks are dealt out to parts: in order, a new part only where one
  more block would be too much, and two blocks in a part only if the part is not too large.
-/

namespace MarkdownIndex.Markdown

open Text FenceState

/-! ## Maximal rows of lines -/

/-- Lines read in a state, none of them a blank one outside fences, which nothing follows but such a
line. -/
structure Rests (s : FenceState) (b cs : List Line) : Prop where
  /-- none of them is a blank one outside fences -/
  solid : Solid s b
  /-- what follows is a blank line outside fences -/
  stops : ∀ l ∈ cs.head?, isBlankText l = true ∧ s.after b = none

/-- Lines after some lines and before others, none of them a blank one outside fences, which cannot
be prolonged at either end. A blank line does not change the state, so it may be asked for behind
it. -/
structure Maximal (as b cs : List Line) : Prop where
  /-- there are such lines -/
  ne_nil : b ≠ []
  /-- what stands before is a blank line outside fences -/
  starts : after none as = none ∧ ∀ l ∈ as.getLast?, isBlankText l = true
  /-- what follows is one, too -/
  rests : Rests (after none as) b cs

variable {s : FenceState} {l : Line} {as b cs ls : List Line}

theorem rests_cons : Rests s (l :: b) cs ↔
    ¬ (isBlankText l = true ∧ s = none) ∧ Rests (s.next l) b cs := by
  constructor
  · rintro ⟨⟨hl, hb⟩, hstops⟩
    exact ⟨fun h => hl h.1 h.2, hb, hstops⟩
  · rintro ⟨hl, hb, hstops⟩
    exact ⟨⟨fun hblank hs => hl ⟨hblank, hs⟩, hb⟩, hstops⟩

/-- The block in progress is the row that rests where it stops. -/
theorem fst_cutBlocks_eq_iff : (cutBlocks s ls).1 = b ↔ ∃ cs, ls = b ++ cs ∧ Rests s b cs := by
  induction ls generalizing s b with
  | nil =>
    constructor
    · rintro rfl
      exact ⟨[], rfl, trivial, fun l hl => nomatch hl⟩
    · rintro ⟨cs, hnil, -⟩
      exact (List.append_eq_nil_iff.mp hnil.symm).1.symm
  | cons l ls ih =>
    by_cases h : isBlankText l = true ∧ s = none
    · -- a blank line outside fences ends the row before it
      rw [cutBlocks_blank h]
      constructor
      · rintro rfl
        refine ⟨l :: ls, rfl, trivial, fun k hk => ?_⟩
        rw [← Option.some.inj hk]
        exact h
      · rintro ⟨cs, hls, hrests⟩
        rcases b with _ | ⟨k, b⟩
        · rfl
        · obtain ⟨rfl, -⟩ := List.cons.inj hls
          exact absurd h (rests_cons.mp hrests).1
    · rw [cutBlocks_solid h]
      constructor
      · rintro rfl
        obtain ⟨cs, hls, hrests⟩ := ih.mp rfl
        exact ⟨cs, congrArg (l :: ·) hls, rests_cons.mpr ⟨h, hrests⟩⟩
      · rintro ⟨cs, hls, hrests⟩
        rcases b with _ | ⟨k, b⟩
        · -- a row without lines would be stopped by this one
          obtain rfl : l :: ls = cs := hls
          exact absurd (hrests.stops l rfl) h
        · obtain ⟨rfl, rfl⟩ := List.cons.inj hls
          exact congrArg (l :: ·) (ih.mpr ⟨cs, rfl, (rests_cons.mp hrests).2⟩)

theorem mem_consBlock {bs : List (List Line)} {c : List Line} :
    b ∈ consBlock c bs ↔ b = c ∧ b ≠ [] ∨ b ∈ bs := by
  rcases c with _ | ⟨l, c⟩
  · constructor
    · exact Or.inr
    · rintro (⟨rfl, hne⟩ | hb)
      · exact absurd rfl hne
      · exact hb
  · rw [consBlock, List.isEmpty_cons, if_neg Bool.false_ne_true, List.mem_cons]
    refine or_congr_left ⟨?_, And.left⟩
    rintro rfl
    exact ⟨rfl, List.cons_ne_nil l c⟩

/-- The later blocks are the rows behind a blank line outside fences that rest where they stop. -/
theorem mem_snd_cutBlocks_iff (hs : Proper s) : b ∈ (cutBlocks s ls).2 ↔
    b ≠ [] ∧ ∃ as k cs, ls = as ++ k :: (b ++ cs) ∧ (isBlankText k = true ∧ s.after as = none) ∧
      Rests none b cs := by
  induction ls generalizing s with
  | nil =>
    refine iff_of_false List.not_mem_nil ?_
    rintro ⟨-, as, k, cs, hnil, -⟩
    exact absurd hnil.symm (List.append_ne_nil_of_right_ne_nil as (List.cons_ne_nil _ _))
  | cons l ls ih =>
    -- the blank line before the row is this one or a later one
    have hsplit : (∃ as k cs, l :: ls = as ++ k :: (b ++ cs) ∧
        (isBlankText k = true ∧ s.after as = none) ∧ Rests none b cs) ↔
        (isBlankText l = true ∧ s = none) ∧ (cutBlocks none ls).1 = b ∨
        ∃ as k cs, ls = as ++ k :: (b ++ cs) ∧
          (isBlankText k = true ∧ (s.next l).after as = none) ∧ Rests none b cs := by
      rw [fst_cutBlocks_eq_iff]
      constructor
      · rintro ⟨as, k, cs, hls, hk, hrests⟩
        rcases as with _ | ⟨a, as⟩
        · obtain ⟨rfl, rfl⟩ := List.cons.inj hls
          exact Or.inl ⟨hk, cs, rfl, hrests⟩
        · obtain ⟨rfl, rfl⟩ := List.cons.inj hls
          exact Or.inr ⟨as, k, cs, rfl, hk, hrests⟩
      · rintro (⟨hl, cs, rfl, hrests⟩ | ⟨as, k, cs, rfl, hk, hrests⟩)
        · exact ⟨[], l, cs, rfl, hl, hrests⟩
        · exact ⟨l :: as, k, cs, rfl, hk, hrests⟩
    rw [hsplit]
    by_cases h : isBlankText l = true ∧ s = none
    · have hnext : s.next l = none := (hs.next_blank h.1).trans h.2
      rw [cutBlocks_blank h, mem_consBlock, ih proper_none, hnext]
      constructor
      · rintro (⟨rfl, hne⟩ | ⟨hne, hlater⟩)
        · exact ⟨hne, Or.inl ⟨h, rfl⟩⟩
        · exact ⟨hne, Or.inr hlater⟩
      · rintro ⟨hne, ⟨-, rfl⟩ | hlater⟩
        · exact Or.inl ⟨rfl, hne⟩
        · exact Or.inr ⟨hne, hlater⟩
    · rw [cutBlocks_solid h, ih (hs.next l)]
      refine and_congr_right fun _ => ⟨Or.inr, ?_⟩
      rintro (⟨hl, -⟩ | hlater)
      · exact absurd hl h
      · exact hlater

/-- **The blocks of some lines are the maximal rows among them** that have no blank line outside a
fence. -/
theorem mem_blocks_iff : b ∈ blocks ls ↔ ∃ as cs, ls = as ++ b ++ cs ∧ Maximal as b cs := by
  rw [blocks, mem_consBlock, mem_snd_cutBlocks_iff proper_none, eq_comm, fst_cutBlocks_eq_iff]
  constructor
  · rintro (⟨⟨cs, rfl, hrests⟩, hne⟩ | ⟨hne, as, k, cs, rfl, ⟨hk, has⟩, hrests⟩)
    · exact ⟨[], cs, rfl, hne, ⟨rfl, fun l hl => absurd hl (Option.not_mem_none l)⟩, hrests⟩
    · have hafter : after none (as ++ [k]) = none := by
        rw [after_append, has]
        exact proper_none.next_blank hk
      refine ⟨as ++ [k], cs, by simp, hne, ⟨hafter, fun l hl => ?_⟩, hafter.symm ▸ hrests⟩
      rw [List.getLast?_concat] at hl
      rwa [← Option.some.inj hl]
  · rintro ⟨as, cs, rfl, hne, ⟨hafter, hlast⟩, hrests⟩
    rw [hafter] at hrests
    rcases List.eq_nil_or_concat' as with rfl | ⟨as, k, rfl⟩
    · exact Or.inl ⟨⟨cs, rfl, hrests⟩, hne⟩
    · have hk : isBlankText k = true := hlast k List.getLast?_concat
      refine Or.inr ⟨hne, as, k, cs, by simp, ⟨hk, ?_⟩, hrests⟩
      rw [after_append] at hafter
      rwa [after_cons, after_nil, (proper_none.after as).next_blank hk] at hafter

/-! ## Rows that lie in a block -/

theorem prefix_fst_cutBlocks (h : Solid s b) (cs : List Line) :
    b <+: (cutBlocks s (b ++ cs)).1 := by
  induction b generalizing s with
  | nil => exact List.nil_prefix
  | cons l b ih =>
    rw [List.cons_append, cutBlocks_solid fun hl => h.1 hl.1 hl.2]
    exact List.cons_prefix_cons.mpr ⟨rfl, ih h.2⟩

/-- **Every row of lines without a blank one outside a fence lies in one block.** -/
theorem exists_mem_consBlock (hne : b ≠ []) (h : Solid (s.after as) b) :
    ∃ c ∈ consBlock (cutBlocks s (as ++ b ++ cs)).1 (cutBlocks s (as ++ b ++ cs)).2,
      b <:+: c := by
  induction as generalizing s with
  | nil =>
    have hprefix := prefix_fst_cutBlocks h cs
    refine ⟨_, mem_consBlock.mpr (Or.inl ⟨rfl, fun hnil => hne ?_⟩), hprefix.isInfix⟩
    exact List.prefix_nil.mp (hnil ▸ hprefix)
  | cons l as ih =>
    by_cases hl : isBlankText l = true ∧ s = none
    · rw [List.cons_append, List.cons_append, cutBlocks_blank hl]
      refine ih ?_
      rwa [after_cons, hl.2, proper_none.next_blank hl.1] at h
    · obtain ⟨c, hc, hb⟩ := ih h
      rw [List.cons_append, List.cons_append, cutBlocks_solid hl]
      rcases mem_consBlock.mp hc with ⟨rfl, -⟩ | hc
      · exact ⟨_, mem_consBlock.mpr (Or.inl ⟨rfl, List.cons_ne_nil l _⟩), hb.trans
          (List.suffix_cons l _).isInfix⟩
      · exact ⟨c, mem_consBlock.mpr (Or.inr hc), hb⟩

theorem exists_mem_blocks (hne : b ≠ []) (h : Solid (after none as) b) (cs : List Line) :
    ∃ c ∈ blocks (as ++ b ++ cs), b <:+: c :=
  exists_mem_consBlock hne h

/-! ## Blocks dealt out to parts -/

/-- What the part at a position takes over: the tail of the part before it. -/
def takenOver (overlap : Nat) (first : List Line) (ps : List (List Line)) : Nat → List Line
  | 0 => first
  | i + 1 => overlapTail overlap (ps[i]?.getD [])

/-- Groups of blocks are dealt out to parts, of which the first takes over some lines. -/
structure Dealt (max overlap : Nat) (first : List Line) (ps : List (List Line))
    (gs : List (List (List Line))) : Prop where
  /-- there is a group for each part -/
  length_eq : gs.length = ps.length
  /-- no group is empty -/
  ne_nil : ∀ g ∈ gs, g ≠ []
  /-- a part is what it takes over, and behind it the blocks of its group -/
  part_eq : ∀ {i : Nat} {p : List Line} {g : List (List Line)}, ps[i]? = some p →
    gs[i]? = some g → p = g.foldl extend (takenOver overlap first ps i)
  /-- a part ends only where the next block would make it too large -/
  needed : ∀ {i : Nat} {p b : List Line} {g : List (List Line)}, ps[i]? = some p →
    gs[i + 1]? = some (b :: g) → max < joinedLength p + 2 + joinedLength b
  /-- a part that is too large has one block -/
  single : ∀ {i : Nat} {p : List Line} {g : List (List Line)}, ps[i]? = some p →
    gs[i]? = some g → max < joinedLength p → ∃ b, g = [b]

variable {max overlap : Nat} {first p : List Line} {ps : List (List Line)}
variable {g bs : List (List Line)} {gs : List (List (List Line))}

/-- One more part in front, whose tail the next one takes over. -/
theorem Dealt.cons (h : Dealt max overlap (overlapTail overlap p) ps gs) (hg : g ≠ [])
    (hp : p = g.foldl extend first) (hsingle : max < joinedLength p → ∃ b, g = [b])
    (hneeded : ∀ b g', gs.head? = some (b :: g') → max < joinedLength p + 2 + joinedLength b) :
    Dealt max overlap first (p :: ps) (g :: gs) where
  length_eq := by rw [List.length_cons, List.length_cons, h.length_eq]
  ne_nil := List.forall_mem_cons.mpr ⟨hg, h.ne_nil⟩
  part_eq := by
    intro i q g' hq hg'
    rcases i with _ | i
    · obtain rfl := Option.some.inj hq
      obtain rfl := Option.some.inj hg'
      exact hp
    · have hnext : takenOver overlap first (p :: ps) (i + 1) =
          takenOver overlap (overlapTail overlap p) ps i := by
        cases i <;> rfl
      rw [hnext]
      exact h.part_eq hq hg'
  needed := by
    intro i q b g' hq hg'
    rcases i with _ | i
    · obtain rfl := Option.some.inj hq
      refine hneeded b g' ?_
      rwa [List.head?_eq_getElem?]
    · exact h.needed hq hg'
  single := by
    intro i q g' hq hg' hlarge
    rcases i with _ | i
    · obtain rfl := Option.some.inj hq
      obtain rfl := Option.some.inj hg'
      exact hsingle hlarge
    · exact h.single hq hg' hlarge

theorem dealt_nil : Dealt max overlap first [] [] where
  length_eq := rfl
  ne_nil := fun _ hg => absurd hg List.not_mem_nil
  part_eq := fun hp => nomatch hp
  needed := fun hp => nomatch hp
  single := fun hp => nomatch hp

/-- An empty line between two groups of lines is joined to both. -/
theorem joinedLength_extend (hp : p ≠ []) (hb : b ≠ []) :
    joinedLength (extend p b) = joinedLength p + 2 + joinedLength b := by
  have hp' := List.length_pos_iff.mpr hp
  have hb' := List.length_pos_iff.mpr hb
  rw [extend_of_ne_nil hp, joinedLength, joinedLength, joinedLength, List.flatten_append,
    List.flatten_cons, List.length_append, List.length_append, List.length_append,
    List.length_cons, List.length_nil]
  omega

/-- Packing deals the blocks out, those first that are in the part in progress. -/
theorem exists_dealt_pack (first : List Line) (hg : g ≠ []) (hp : p = g.foldl extend first)
    (hsingle : max < joinedLength p → ∃ b, g = [b]) (hne : p ≠ []) (hbs : ∀ b ∈ bs, b ≠ []) :
    ∃ gs, gs.flatten = g ++ bs ∧ Dealt max overlap first (pack max overlap p bs) gs := by
  induction bs generalizing g p first with
  | nil =>
    refine ⟨[g], rfl, dealt_nil.cons hg hp hsingle fun b g' hnone => nomatch hnone⟩
  | cons b bs ih =>
    obtain ⟨hb, hbs⟩ := List.forall_mem_cons.mp hbs
    rw [pack]
    split
    · -- the part is full, and the block is the first of a new one
      rename_i hlarge
      obtain ⟨gs, hflatten, hdealt⟩ := ih (overlapTail overlap p)
        (List.cons_ne_nil b []) rfl (fun _ => ⟨b, rfl⟩) (extend_ne_nil _ hb) hbs
      refine ⟨g :: gs, by rw [List.flatten_cons, hflatten, List.singleton_append],
        hdealt.cons hg hp hsingle fun b' g' hhead => ?_⟩
      obtain ⟨gs, rfl⟩ := List.head?_eq_some_iff.mp hhead
      obtain rfl : b' = b := List.head_eq_of_cons_eq hflatten
      exact hlarge
    · -- the block is added to the part, which is then not too large
      rename_i hfits
      obtain ⟨gs, hflatten, hdealt⟩ := ih first (g := g ++ [b])
        (List.append_ne_nil_of_left_ne_nil hg _)
        (by rw [List.foldl_append, ← hp]; rfl)
        (fun hlarge => absurd (joinedLength_extend hne hb ▸ hlarge) hfits)
        (extend_ne_nil p hb) hbs
      exact ⟨gs, by rw [hflatten, List.append_assoc, List.singleton_append], hdealt⟩

variable (max overlap) in
/-- **The blocks of a section are dealt out to its parts in order,** with a new part only where it
is needed, and so that only a single block makes a part too large. -/
theorem exists_dealt (ls : List Line) :
    ∃ gs, gs.flatten = blocks ls ∧ Dealt max overlap [] (parts max overlap ls) gs := by
  have hblocks : ∀ b ∈ blocks ls, b ≠ [] := fun b hb => (isBlock_of_mem_blocks b hb).1
  rw [parts]
  rcases hb : blocks ls with _ | ⟨b, bs⟩
  · exact ⟨[], rfl, dealt_nil⟩
  · rw [hb] at hblocks
    obtain ⟨hne, hbs⟩ := List.forall_mem_cons.mp hblocks
    exact exists_dealt_pack [] (g := [b]) (List.cons_ne_nil b []) rfl (fun _ => ⟨b, rfl⟩) hne hbs

/-- What is added to lines comes behind them. -/
theorem prefix_foldl_extend (first : List Line) (g : List (List Line)) :
    first <+: g.foldl extend first := by
  induction g generalizing first with
  | nil => exact List.prefix_refl first
  | cons c g ih =>
    refine List.IsPrefix.trans ?_ (ih (extend first c))
    rcases eq_or_ne first [] with rfl | hne
    · exact List.nil_prefix
    · rw [extend_of_ne_nil hne]
      exact List.prefix_append first _

/-- A block stands in one piece in the part that it is added to. -/
theorem infix_foldl_extend (hb : b ∈ g) (first : List Line) : b <:+: g.foldl extend first := by
  induction g generalizing first with
  | nil => exact absurd hb List.not_mem_nil
  | cons c g ih =>
    rcases List.mem_cons.mp hb with rfl | hb
    · refine List.IsInfix.trans ?_ (prefix_foldl_extend (extend first b) g).isInfix
      rcases eq_or_ne first [] with rfl | hne
      · exact List.infix_refl b
      · rw [extend_of_ne_nil hne, List.append_cons]
        exact (List.suffix_append _ b).isInfix
    · exact ih hb (extend first c)

/-- Every block stands in one piece in a part. -/
theorem exists_mem_parts (hb : b ∈ blocks ls) : ∃ p ∈ parts max overlap ls, b <:+: p := by
  obtain ⟨gs, hflatten, hdealt⟩ := exists_dealt max overlap ls
  rw [← hflatten] at hb
  obtain ⟨g, hg, hb⟩ := List.mem_flatten.mp hb
  obtain ⟨i, hi, rfl⟩ := List.mem_iff_getElem.mp hg
  have hlt : i < (parts max overlap ls).length := hdealt.length_eq ▸ hi
  have hpart := hdealt.part_eq (List.getElem?_eq_getElem hlt) (List.getElem?_eq_getElem hi)
  refine ⟨_, List.getElem_mem hlt, ?_⟩
  rw [hpart]
  exact infix_foldl_extend hb _

end MarkdownIndex.Markdown
