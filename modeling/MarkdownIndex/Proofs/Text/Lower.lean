import Mathlib.Data.List.Forall2
import MarkdownIndex.Proofs.Text.Case

/-!
# Lower case and words: which of them comes first

Tokens are cut from a text as it is written, and each is lowered on its own. To lower the whole text
first makes a difference in two places only. The dotted capital `İ` becomes two characters, and the
second is no letter, so that it parts what was one word. And whether a capital sigma is final
depends on its neighbours, which for a token are those of its word, but for a text also those
beyond.

* `lowerBetween` — the lower case of a character between its neighbours; `IsLower` — texts with
  nothing to lower, of which `isLower_lowerText` makes every text one.
* `lowerWordsAfter` — a text with each of its words lowered on its own;
  `alphanumericRuns_lowerWordsAfter` — its runs are the tokens of the text.
* `Alike`, `eq_of_alphanumericRuns_eq` — texts that differ in letters alone differ in their runs.
* `Steady` — no character of the text is such a place; `tokens_lowerText_iff` — the main result.
* `steady_of_plain`, `steady_of_run` — texts without the two capitals, and single words.
* `tokens_joinWords` — words that are put together have themselves for their tokens.
-/

namespace MarkdownIndex.Text

variable {c d : Char} {cs ds : List Char} {ps : List (List Char)}

/-! ## Characters between others -/

/-- A capital sigma is final between what is before it, last character first, and after it. -/
def isFinal (before after : List Char) : Bool := startsCased before && !startsCased after

/-- The lower case of a character between what is before it, last character first, and after it. -/
def lowerBetween (before : List Char) (c : Char) (after : List Char) : List Char :=
  if c = 'Σ' then [if isFinal before after then 'ς' else 'σ'] else lower c

theorem lowerAfter_cons (before : List Char) (c : Char) (rest : List Char) :
    lowerAfter before (c :: rest) =
      lowerBetween before c rest ++ lowerAfter (c :: before) rest := rfl

theorem lowersTo_sigma (final : Bool) : LowersTo 'Σ' (if final then 'ς' else 'σ') := by
  have hletter : isAlphanumeric 'Σ' = true := by decide +kernel
  refine ⟨?_, fun h => absurd (h.symm.trans hletter) Bool.false_ne_true, ?_⟩
  · cases final with
    | true => decide +kernel
    | false => decide +kernel
  · cases final with
    | true => decide +kernel
    | false => decide +kernel

/-- But for the dotted capital `İ`, a character has one character for its lower case. -/
theorem exists_lowerBetween (hc : c ≠ 'İ') (before after : List Char) :
    ∃ d, lowerBetween before c after = [d] ∧ LowersTo c d := by
  by_cases hsigma : c = 'Σ'
  · subst hsigma
    exact ⟨_, if_pos rfl, lowersTo_sigma (isFinal before after)⟩
  · exact ⟨_, (if_neg hsigma).trans (lower_eq_shiftBy hc), lowersTo_shiftBy hc⟩

theorem lowerBetween_dotted (before after : List Char) :
    lowerBetween before 'İ' after = ['i', '\u0307'] := rfl

theorem lowerBetween_ne_nil (before after : List Char) : lowerBetween before c after ≠ [] := by
  by_cases hc : c = 'İ'
  · subst hc
    exact List.cons_ne_nil _ _
  · obtain ⟨d, hd, -⟩ := exists_lowerBetween hc before after
    rw [hd]
    exact List.cons_ne_nil _ _

/-- Only of a capital sigma the lower case depends on the neighbours. -/
theorem lowerBetween_eq_iff (c : Char) (before before' after after' : List Char) :
    lowerBetween before c after = lowerBetween before' c after' ↔
      (c = 'Σ' → isFinal before after = isFinal before' after') := by
  rw [lowerBetween, lowerBetween]
  by_cases hsigma : c = 'Σ'
  · rw [if_pos hsigma, if_pos hsigma]
    cases isFinal before after <;> cases isFinal before' after' <;> simp [hsigma]
  · rw [if_neg hsigma, if_neg hsigma]
    exact iff_of_true rfl fun h => absurd h hsigma

/-! ## Texts with nothing to lower -/

/-- There is nothing to lower in the text. -/
def IsLower (cs : List Char) : Prop := ∀ c ∈ cs, lower c = [c]

theorem isLower_lowerBetween (before after : List Char) : IsLower (lowerBetween before c after) := by
  by_cases hc : c = 'İ'
  · subst hc
    have hpair : (['i', '\u0307'].all fun d => lower d == [d]) = true := by decide +kernel
    intro d hd
    exact eq_of_beq (List.all_eq_true.mp hpair d (lowerBetween_dotted before after ▸ hd))
  · obtain ⟨d, hd, hlower⟩ := exists_lowerBetween hc before after
    rw [hd]
    exact List.forall_mem_singleton.mpr hlower.lower_eq

theorem isLower_lowerAfter (before cs : List Char) : IsLower (lowerAfter before cs) := by
  induction cs generalizing before with
  | nil => exact fun c hc => absurd hc List.not_mem_nil
  | cons c cs ih =>
    rw [lowerAfter_cons]
    exact List.forall_mem_append.mpr ⟨isLower_lowerBetween before cs, ih (c :: before)⟩

/-- **Lowering leaves nothing to lower.** -/
theorem isLower_lowerText (cs : List Char) : IsLower (lowerText cs) := isLower_lowerAfter [] cs

theorem IsLower.lowerAfter_eq (h : IsLower cs) (before : List Char) :
    lowerAfter before cs = cs := by
  induction cs generalizing before with
  | nil => rfl
  | cons c cs ih =>
    obtain ⟨hc, hcs⟩ := List.forall_mem_cons.mp h
    have hsigma : c ≠ 'Σ' := by
      rintro rfl
      exact absurd hc (by decide +kernel)
    rw [lowerAfter_cons, lowerBetween, if_neg hsigma, hc, ih hcs]
    rfl

/-- The tokens of a text with nothing to lower are its runs. -/
theorem IsLower.tokens_eq (h : IsLower cs) : tokens cs = alphanumericRuns cs := by
  rw [tokens, ← alphanumericRuns]
  refine (List.map_congr_left fun t ht => ?_).trans (List.map_id _)
  have hsub := (of_mem_splitAtClass (List.mem_of_mem_filter ht)).1
  exact IsLower.lowerAfter_eq (fun c hc => h c (hsub.subset hc)) []

theorem isEmpty_lowerText (cs : List Char) : (lowerText cs).isEmpty = cs.isEmpty := by
  cases cs with
  | nil => rfl
  | cons c cs =>
    rw [lowerText, lowerAfter_cons, List.isEmpty_cons, List.isEmpty_eq_false_iff]
    exact List.append_ne_nil_of_left_ne_nil (lowerBetween_ne_nil [] cs) _

theorem mem_lowerAfter (hc : c ∈ cs) (hsigma : c ≠ 'Σ') (hd : d ∈ lower c) (before : List Char) :
    d ∈ lowerAfter before cs := by
  induction cs generalizing before with
  | nil => cases hc
  | cons e cs ih =>
    rw [lowerAfter_cons, List.mem_append]
    rcases List.mem_cons.mp hc with rfl | hc
    · exact Or.inl (by rwa [lowerBetween, if_neg hsigma])
    · exact Or.inr (ih hc _)

/-! ## Pieces between characters that are not alphanumeric -/

/-- The pieces of a text between the characters that are not alphanumeric, empty ones included. -/
def pieces (cs : List Char) : List (List Char) := splitAtClass (fun c => !isAlphanumeric c) cs

theorem pieces_cons_of_not (hc : isAlphanumeric c = false) : pieces (c :: cs) = [] :: pieces cs := by
  rw [pieces, splitAtClass, hc]
  rfl

theorem pieces_cons_of (hc : isAlphanumeric c = true) (hps : pieces cs = ds :: ps) :
    pieces (c :: cs) = (c :: ds) :: ps := by
  rw [pieces] at hps
  rw [pieces, splitAtClass, hc, hps]
  rfl

theorem alphanumericRuns_eq (cs : List Char) :
    alphanumericRuns cs = (pieces cs).filter (!·.isEmpty) := rfl

/-- The first piece goes as far as the text is alphanumeric. -/
theorem exists_pieces (cs : List Char) : ∃ ps, pieces cs = cs.takeWhile isAlphanumeric :: ps := by
  induction cs with
  | nil => exact ⟨[], rfl⟩
  | cons c cs ih =>
    obtain ⟨ps, hps⟩ := ih
    cases hc : isAlphanumeric c with
    | false => exact ⟨_, by rw [pieces_cons_of_not hc, List.takeWhile_cons_of_neg (by simp [hc])]⟩
    | true => exact ⟨ps, by rw [pieces_cons_of hc hps, List.takeWhile_cons_of_pos hc]⟩

/-- An alphanumeric character stands in a run. -/
theorem exists_run_of_mem (hc : c ∈ cs) (hletter : isAlphanumeric c = true) :
    ∃ t ∈ alphanumericRuns cs, c ∈ t := by
  have hpiece : ∃ t ∈ pieces cs, c ∈ t := by
    induction cs with
    | nil => cases hc
    | cons e cs ih =>
      obtain ⟨ps, hps⟩ := exists_pieces cs
      cases he : isAlphanumeric e with
      | false =>
        have hne : c ≠ e := fun h => by rw [h, he] at hletter; cases hletter
        obtain ⟨t, ht, hct⟩ := ih ((List.mem_cons.mp hc).resolve_left hne)
        exact ⟨t, pieces_cons_of_not he ▸ List.mem_cons_of_mem _ ht, hct⟩
      | true =>
        rw [pieces_cons_of he hps]
        rcases List.mem_cons.mp hc with rfl | hc
        · exact ⟨_, List.mem_cons_self, List.mem_cons_self⟩
        · obtain ⟨t, ht, hct⟩ := ih hc
          rcases List.mem_cons.mp (hps ▸ ht) with rfl | ht
          · exact ⟨_, List.mem_cons_self, List.mem_cons_of_mem e hct⟩
          · exact ⟨t, List.mem_cons_of_mem _ ht, hct⟩
  obtain ⟨t, ht, hct⟩ := hpiece
  refine ⟨t, List.mem_filter.mpr ⟨ht, ?_⟩, hct⟩
  rw [List.isEmpty_eq_false_iff.mpr (List.ne_nil_of_mem hct)]
  rfl

/-! ## Words lowered each on its own -/

/-- A text with each of its words lowered on its own, given the part already read, last character
first. -/
def lowerWordsAfter (before : List Char) : List Char → List Char
  | [] => []
  | c :: rest =>
    lowerBetween (before.takeWhile isAlphanumeric) c (rest.takeWhile isAlphanumeric) ++
      lowerWordsAfter (c :: before) rest

/-- The first piece goes on from the word that has been read, and each of the others is lowered. -/
theorem pieces_lowerWordsAfter (hdotted : 'İ' ∉ cs) (before : List Char)
    (hps : pieces cs = cs.takeWhile isAlphanumeric :: ps) :
    pieces (lowerWordsAfter before cs) =
      lowerAfter (before.takeWhile isAlphanumeric) (cs.takeWhile isAlphanumeric) ::
        ps.map lowerText := by
  induction cs generalizing before ps with
  | nil =>
    obtain rfl : [] = ps := (List.cons.inj hps).2
    rfl
  | cons c cs ih =>
    obtain ⟨hc, hcs⟩ := not_or.mp (mt List.mem_cons.mpr hdotted)
    obtain ⟨ps', hps'⟩ := exists_pieces cs
    obtain ⟨d, hd, hlower⟩ := exists_lowerBetween (Ne.symm hc) (before.takeWhile isAlphanumeric)
      (cs.takeWhile isAlphanumeric)
    have hrest := ih hcs (c :: before) hps'
    rw [lowerWordsAfter, hd, List.singleton_append]
    cases hletter : isAlphanumeric c with
    | false =>
      have hnot : ¬ isAlphanumeric c = true := by rw [hletter]; exact Bool.false_ne_true
      rw [pieces_cons_of_not hletter, List.takeWhile_cons_of_neg hnot, hps'] at hps
      obtain rfl : _ = ps := (List.cons.inj hps).2
      rw [List.takeWhile_cons_of_neg hnot] at hrest
      rw [hlower.eq_of_not hletter, pieces_cons_of_not hletter, hrest,
        List.takeWhile_cons_of_neg hnot]
      rfl
    | true =>
      rw [pieces_cons_of hletter hps', List.takeWhile_cons_of_pos hletter] at hps
      obtain rfl : ps' = ps := (List.cons.inj hps).2
      rw [List.takeWhile_cons_of_pos hletter] at hrest
      rw [pieces_cons_of (hlower.isAlphanumeric_eq.trans hletter) hrest,
        List.takeWhile_cons_of_pos hletter, lowerAfter_cons, hd, List.singleton_append]

/-- **The tokens of a text are the runs of the text with its words lowered.** -/
theorem alphanumericRuns_lowerWordsAfter (hdotted : 'İ' ∉ cs) :
    alphanumericRuns (lowerWordsAfter [] cs) = tokens cs := by
  obtain ⟨ps, hps⟩ := exists_pieces cs
  have hmap : pieces (lowerWordsAfter [] cs) = (pieces cs).map lowerText := by
    rw [pieces_lowerWordsAfter hdotted [] hps, hps]
    rfl
  have hkept : ((fun t : List Char => !t.isEmpty) ∘ lowerText) = fun t => !t.isEmpty :=
    funext fun t => congrArg not (isEmpty_lowerText t)
  rw [alphanumericRuns_eq, hmap, List.filter_map, hkept]
  rfl

/-! ## Texts that differ in letters alone -/

/-- Two characters are alphanumeric both, or the same. -/
structure Alike (c d : Char) : Prop where
  /-- one is alphanumeric if the other is -/
  isAlphanumeric_eq : isAlphanumeric c = isAlphanumeric d
  /-- they are the same if they are not -/
  eq_of_not : isAlphanumeric c = false → c = d

theorem LowersTo.alike {e : Char} (hd : LowersTo c d) (he : LowersTo c e) : Alike d e where
  isAlphanumeric_eq := hd.isAlphanumeric_eq.trans he.isAlphanumeric_eq.symm
  eq_of_not h := by
    have hc := hd.isAlphanumeric_eq.symm.trans h
    rw [hd.eq_of_not hc, he.eq_of_not hc]

theorem forall₂_alike (hdotted : 'İ' ∉ cs) (before before' : List Char) :
    List.Forall₂ Alike (lowerAfter before cs) (lowerWordsAfter before' cs) := by
  induction cs generalizing before before' with
  | nil => exact List.Forall₂.nil
  | cons c cs ih =>
    obtain ⟨hc, hcs⟩ := not_or.mp (mt List.mem_cons.mpr hdotted)
    obtain ⟨d, hd, hlower⟩ := exists_lowerBetween (Ne.symm hc) before cs
    obtain ⟨e, he, hlower'⟩ := exists_lowerBetween (Ne.symm hc) (before'.takeWhile isAlphanumeric)
      (cs.takeWhile isAlphanumeric)
    rw [lowerAfter_cons, lowerWordsAfter, hd, he]
    exact List.Forall₂.cons (hlower.alike hlower') (ih hcs _ _)

/-- **Texts that differ in letters alone are the same if their runs are.** -/
theorem eq_of_alphanumericRuns_eq (h : List.Forall₂ Alike cs ds)
    (hruns : alphanumericRuns cs = alphanumericRuns ds) : cs = ds := by
  induction h with
  | nil => rfl
  | @cons c d cs ds hcd _ ih =>
    cases hc : isAlphanumeric c with
    | false =>
      have hd := hcd.isAlphanumeric_eq.symm.trans hc
      rw [alphanumericRuns_eq, alphanumericRuns_eq, pieces_cons_of_not hc,
        pieces_cons_of_not hd] at hruns
      rw [hcd.eq_of_not hc, ih hruns]
    | true =>
      have hd := hcd.isAlphanumeric_eq.symm.trans hc
      obtain ⟨ps, hps⟩ := exists_pieces cs
      obtain ⟨qs, hqs⟩ := exists_pieces ds
      rw [alphanumericRuns_eq, alphanumericRuns_eq, pieces_cons_of hc hps,
        pieces_cons_of hd hqs] at hruns
      obtain ⟨hfirst, hothers⟩ := List.cons.inj hruns
      obtain ⟨rfl, hpiece⟩ := List.cons.inj hfirst
      refine congrArg (c :: ·) (ih ?_)
      rw [alphanumericRuns_eq, alphanumericRuns_eq, hps, hqs, hpiece, List.filter_cons,
        List.filter_cons, hothers]

/-! ## Steady texts -/

/-- The words of a text are the same in lower case. It has no dotted capital `İ`; and every capital
sigma in it is final in its word just if it is final in the text. -/
structure Steady (cs : List Char) : Prop where
  /-- no character becomes two -/
  not_dotted : 'İ' ∉ cs
  /-- characters beyond the word of a sigma do not matter to it -/
  isFinal_eq : ∀ before after, cs = before ++ 'Σ' :: after →
    isFinal before.reverse after =
      isFinal (before.reverse.takeWhile isAlphanumeric) (after.takeWhile isAlphanumeric)

/-- Lowering a text lowers its words if that holds of every sigma. -/
theorem lowerAfter_eq_lowerWordsAfter_iff (hdotted : 'İ' ∉ cs) (read : List Char) :
    lowerAfter read cs = lowerWordsAfter read cs ↔
      ∀ before after, cs = before ++ 'Σ' :: after →
        isFinal (before.reverse ++ read) after =
          isFinal ((before.reverse ++ read).takeWhile isAlphanumeric)
            (after.takeWhile isAlphanumeric) := by
  induction cs generalizing read with
  | nil => exact iff_of_true rfl fun before after h => by simp at h
  | cons c cs ih =>
    obtain ⟨hc, hcs⟩ := not_or.mp (mt List.mem_cons.mpr hdotted)
    have hhead := lowerBetween_eq_iff c read (read.takeWhile isAlphanumeric) cs
      (cs.takeWhile isAlphanumeric)
    obtain ⟨d, hd, -⟩ := exists_lowerBetween (Ne.symm hc) read cs
    obtain ⟨e, he, -⟩ := exists_lowerBetween (Ne.symm hc) (read.takeWhile isAlphanumeric)
      (cs.takeWhile isAlphanumeric)
    rw [hd, he, List.singleton_inj] at hhead
    rw [lowerAfter_cons, lowerWordsAfter, hd, he, List.singleton_append, List.singleton_append,
      List.cons_eq_cons, ih hcs, hhead]
    constructor
    · rintro ⟨hfirst, hrest⟩ (_ | ⟨b, before⟩) after heq
      · obtain ⟨rfl, rfl⟩ := List.cons.inj heq
        exact hfirst rfl
      · obtain ⟨rfl, htail⟩ := List.cons.inj heq
        rw [List.reverse_cons, List.append_assoc]
        exact hrest before after htail
    · intro h
      refine ⟨fun hsigma => h [] cs (by rw [hsigma]; rfl), fun before after heq => ?_⟩
      have hlater := h (c :: before) after (by rw [heq]; rfl)
      rwa [List.reverse_cons, List.append_assoc] at hlater

/-- With a dotted capital `İ` a token is not alphanumeric. -/
theorem tokens_lowerText_ne (hdotted : 'İ' ∈ cs) : tokens (lowerText cs) ≠ tokens cs := by
  intro heq
  obtain ⟨t, ht, hmem⟩ := exists_run_of_mem hdotted (by decide +kernel)
  have htoken : lowerText t ∈ tokens (lowerText cs) := heq ▸ List.mem_map_of_mem ht
  rw [(isLower_lowerText cs).tokens_eq] at htoken
  have hdot : '\u0307' ∈ lowerText t :=
    mem_lowerAfter hmem (by decide) (List.mem_cons_of_mem _ (List.mem_singleton_self _)) []
  have hnot := (of_mem_runsOutside htoken).2 _ hdot
  revert hnot
  decide +kernel

/-- **A text and its lower case have the same tokens just if the text is steady.** -/
theorem tokens_lowerText_iff : tokens (lowerText cs) = tokens cs ↔ Steady cs := by
  by_cases hdotted : 'İ' ∈ cs
  · exact iff_of_false (tokens_lowerText_ne hdotted) fun h => h.not_dotted hdotted
  · have hsigma := lowerAfter_eq_lowerWordsAfter_iff hdotted []
    simp only [List.append_nil] at hsigma
    rw [(isLower_lowerText cs).tokens_eq, ← alphanumericRuns_lowerWordsAfter hdotted]
    constructor
    · intro hruns
      exact ⟨hdotted, hsigma.mp (eq_of_alphanumericRuns_eq (forall₂_alike hdotted [] []) hruns)⟩
    · intro h
      rw [lowerText, hsigma.mpr h.isFinal_eq]

/-! ## Steady and solid texts -/

/-- A text without the two capitals is steady. -/
theorem steady_of_plain (hdotted : 'İ' ∉ cs) (hsigma : 'Σ' ∉ cs) : Steady cs where
  not_dotted := hdotted
  isFinal_eq before after heq := by
    subst heq
    exact absurd (List.mem_append_right before List.mem_cons_self) hsigma

/-- A single word is steady, if it has no dotted capital `İ`. -/
theorem steady_of_run {t : List Char} (ht : t ∈ alphanumericRuns cs) (hdotted : 'İ' ∉ t) :
    Steady t where
  not_dotted := hdotted
  isFinal_eq before after heq := by
    have hsolid : ∀ c ∈ t, isAlphanumeric c = true := fun c hc => by
      have hnot := (of_mem_runsOutside ht).2 c hc
      rwa [Bool.not_eq_false'] at hnot
    rw [heq, List.forall_mem_append, List.forall_mem_cons] at hsolid
    obtain ⟨hbefore, -, hafter⟩ := hsolid
    rw [List.takeWhile_eq_self_iff.mpr hafter, List.takeWhile_eq_self_iff.mpr fun c hc =>
      hbefore c (List.mem_reverse.mp hc)]

/-- The lower case of a word is a word again, if it has no dotted capital `İ`. -/
theorem alphanumericRuns_lowerText {t : List Char} (ht : t ∈ alphanumericRuns cs)
    (hdotted : 'İ' ∉ t) : alphanumericRuns (lowerText t) = [lowerText t] := by
  rw [← (isLower_lowerText t).tokens_eq, tokens_lowerText_iff.mpr (steady_of_run ht hdotted),
    tokens_run ht]

/-- Words that are put together with spaces are the runs of the whole. -/
theorem alphanumericRuns_joinWords {ws : List (List Char)}
    (hws : ∀ w ∈ ws, alphanumericRuns w = [w]) : alphanumericRuns (joinWords ws) = ws := by
  match ws, hws with
  | [], _ => rfl
  | [w], hws => exact hws w (List.mem_singleton_self w)
  | w :: v :: ws, hws =>
    obtain ⟨hw, hvs⟩ := List.forall_mem_cons.mp hws
    have hparts : alphanumericRuns (w ++ ' ' :: joinWords (v :: ws)) =
        alphanumericRuns w ++ alphanumericRuns (joinWords (v :: ws)) :=
      runsOutside_append_cons w (by decide) _
    rw [joinWords, joinWith, List.append_assoc, List.singleton_append, ← joinWords, hparts, hw,
      alphanumericRuns_joinWords hvs]
    rfl

/-- **Lower-cased words are found as they are:** put together, they have themselves for their
tokens. -/
theorem tokens_joinWords {ws : List (List Char)}
    (hws : ∀ w ∈ ws, w ∈ alphanumericRuns cs ∧ 'İ' ∉ w) :
    tokens (joinWords (ws.map lowerText)) = ws.map lowerText := by
  have hruns : alphanumericRuns (joinWords (ws.map lowerText)) = ws.map lowerText :=
    alphanumericRuns_joinWords (List.forall_mem_map.mpr fun w hw =>
      alphanumericRuns_lowerText (hws w hw).1 (hws w hw).2)
  rw [tokens, ← alphanumericRuns, hruns, List.map_map]
  exact List.map_congr_left fun w _ => (isLower_lowerText w).lowerAfter_eq []

end MarkdownIndex.Text
