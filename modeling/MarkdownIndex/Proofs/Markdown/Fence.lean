import MarkdownIndex.Markdown.Fence
import MarkdownIndex.Proofs.Text.Lines

/-!
# Fences: what the state between lines depends on

The tracker of fences is run over the lines of a document, of a section, of a part and of a chunk.
What makes those runs comparable:

* `openedBy?_trim`, `closedBy_trim` — trimming a line changes nothing for the tracker.
* `Proper` — the states that lines can lead to; in them a blank line changes nothing either.
* `fenced` — the lines that are delimiters or stand inside a fence, trimmed.
* `after_core`, `fenced_core` — a text and the core of its lines lead to the same state through the
  same fenced lines, up to blank lines at the end of a fence that stays open.
* `Plain` — a line that opens no fence; `plain_of_mem_drop` finds such lines after the last
  delimiter of a text whose fences are all closed.
* `Sealed` — groups of lines that no fence reaches across. Sections, blocks, parts and chunks are
  all such groups, and the fenced lines of such groups can be read group by group.
-/

namespace MarkdownIndex.Markdown

open Text

/-! ## Trimming -/

theorem not_isBlank_marker {m : Char} (h : m = backQuote ∨ m = '~') : ¬ isBlank m = true := by
  rcases h with rfl | rfl
  · decide
  · decide

theorem runLength_cons (m c : Char) (cs : List Char) :
    runLength m (c :: cs) = if c = m then runLength m cs + 1 else 0 := by
  simp only [runLength, List.takeWhile_cons, beq_iff_eq]
  split
  · rfl
  · rfl

theorem runLength_append_of_blank {m : Char} (hm : ¬ isBlank m = true) (cs : List Char)
    {bs : List Char} (h : isBlankText bs = true) : runLength m (cs ++ bs) = runLength m cs := by
  induction cs with
  | nil =>
    rcases bs with _ | ⟨b, bs⟩
    · rfl
    · rw [List.nil_append, runLength_cons, if_neg]
      · rfl
      · rintro rfl
        exact hm (isBlankText_cons.mp h).1
  | cons c cs ih => rw [List.cons_append, runLength_cons, runLength_cons, ih]

/-- Trimming a line does not change the fence that it opens. -/
theorem Fence.openedBy?_trim (l : Line) : Fence.openedBy? (trim l) = Fence.openedBy? l := by
  obtain ⟨bs, hbs, hstart⟩ := trimStart_eq_trim_append l
  rw [Fence.openedBy?, Fence.openedBy?, trimStart_trim, hstart]
  -- what was trimmed away is blank, so it cannot go on with the run of a marker
  rcases htrim : trim l with _ | ⟨m, cs⟩
  · rw [htrim, List.nil_append] at hstart
    have hnil : bs = [] := by
      rw [← hstart, trimStart_eq_nil_iff, ← trim_eq_nil_iff, htrim]
    rw [hnil]
    rfl
  · by_cases hm : m = backQuote ∨ m = '~'
    · have hrun : runLength m (m :: (cs ++ bs)) = runLength m (m :: cs) :=
        runLength_append_of_blank (not_isBlank_marker hm) (m :: cs) hbs
      simp only [List.cons_append, hrun]
    · simp only [List.cons_append, hm, false_and, if_false]

/-- Trimming a line does not change which fences it closes. -/
theorem Fence.closedBy_trim (f : Fence) (l : Line) : f.closedBy (trim l) = f.closedBy l := by
  simp only [Fence.closedBy, trim_trim]

/-- A line opens only fences of three characters or more. -/
theorem Fence.three_le_run {l : Line} {f : Fence} (h : Fence.openedBy? l = some f) : 3 ≤ f.run := by
  rw [Fence.openedBy?] at h
  split at h
  · cases h
  · split at h
    · rename_i hm
      rw [← Option.some.inj h]
      exact hm.2
    · cases h

namespace FenceState

theorem isDelimiter_trim (s : FenceState) (l : Line) : s.isDelimiter (trim l) = s.isDelimiter l := by
  cases s with
  | none => rw [isDelimiter, isDelimiter, Fence.openedBy?_trim]
  | some f => rw [isDelimiter, isDelimiter, f.closedBy_trim]

theorem next_trim (s : FenceState) (l : Line) : s.next (trim l) = s.next l := by
  cases s with
  | none => rw [next, next, Fence.openedBy?_trim]
  | some f => rw [next, next, f.closedBy_trim]

/-! ## Several lines -/

@[simp] theorem after_nil (s : FenceState) : s.after [] = s := rfl

@[simp] theorem after_cons (s : FenceState) (l : Line) (ls : List Line) :
    s.after (l :: ls) = (s.next l).after ls := rfl

@[simp] theorem after_append (s : FenceState) (as bs : List Line) :
    s.after (as ++ bs) = (s.after as).after bs :=
  List.foldl_append

theorem after_map_trim (s : FenceState) (ls : List Line) : s.after (ls.map trim) = s.after ls := by
  induction ls generalizing s with
  | nil => rfl
  | cons l ls ih => rw [List.map_cons, after_cons, after_cons, next_trim, ih]

/-- A line that is no delimiter leaves the state alone. -/
theorem next_of_not_isDelimiter {s : FenceState} {l : Line} (h : s.isDelimiter l = false) :
    s.next l = s := by
  cases s with
  | none => exact Option.isNone_iff_eq_none.mp (Option.isSome_eq_false_iff.mp h)
  | some f =>
    rw [next, if_neg]
    rw [show f.closedBy l = false from h]
    exact Bool.false_ne_true

/-! ## Proper states and blank lines -/

/-- The state is one that lines can lead to: the run of an open fence has a character. -/
def Proper (s : FenceState) : Prop := ∀ f ∈ s, 0 < f.run

theorem proper_none : Proper none := fun _ hf => absurd hf (Option.not_mem_none _)

theorem Proper.next {s : FenceState} (h : Proper s) (l : Line) : Proper (s.next l) := by
  intro g hg
  cases s with
  | none => exact Nat.lt_of_lt_of_le (by decide) (Fence.three_le_run hg)
  | some f =>
    rw [FenceState.next] at hg
    split at hg
    · cases hg
    · exact h g hg

theorem Proper.after {s : FenceState} (h : Proper s) (ls : List Line) : Proper (s.after ls) := by
  induction ls generalizing s with
  | nil => exact h
  | cons l ls ih => exact ih (h.next l)

/-- A blank line neither opens nor closes a fence. -/
theorem Proper.isDelimiter_blank {s : FenceState} (h : Proper s) {l : Line}
    (hl : isBlankText l = true) : s.isDelimiter l = false := by
  cases s with
  | none =>
    rw [isDelimiter, Fence.openedBy?, trimStart_eq_nil_iff.mpr hl]
    rfl
  | some f =>
    have hrun : ¬ f.run ≤ 0 := Nat.not_le.mpr (h f rfl)
    simp [isDelimiter, Fence.closedBy, trim_eq_nil_iff.mpr hl, runLength, hrun]

theorem Proper.next_blank {s : FenceState} (h : Proper s) {l : Line} (hl : isBlankText l = true) :
    s.next l = s :=
  next_of_not_isDelimiter (h.isDelimiter_blank hl)

theorem Proper.after_blank {s : FenceState} (h : Proper s) {ls : List Line}
    (hls : ∀ l ∈ ls, isBlankText l = true) : s.after ls = s := by
  induction ls with
  | nil => rfl
  | cons l ls ih =>
    obtain ⟨hl, hls⟩ := List.forall_mem_cons.mp hls
    rw [after_cons, h.next_blank hl, ih hls]

/-! ## Fenced lines -/

/-- The lines, trimmed, that are delimiters or stand inside a fence when lines are read in a
state. -/
def fenced (s : FenceState) : List Line → List Line
  | [] => []
  | l :: ls =>
    if s.isSome ∨ s.isDelimiter l = true then trim l :: fenced (s.next l) ls
    else fenced (s.next l) ls

theorem fenced_cons (s : FenceState) (l : Line) (ls : List Line) :
    s.fenced (l :: ls) =
      if s.isSome ∨ s.isDelimiter l = true then trim l :: (s.next l).fenced ls
      else (s.next l).fenced ls := rfl

theorem fenced_append (s : FenceState) (as bs : List Line) :
    s.fenced (as ++ bs) = s.fenced as ++ (s.after as).fenced bs := by
  induction as generalizing s with
  | nil => rfl
  | cons l ls ih =>
    rw [List.cons_append, fenced_cons, fenced_cons, ih, after_cons]
    split
    · rfl
    · rfl

theorem fenced_map_trim (s : FenceState) (ls : List Line) :
    s.fenced (ls.map trim) = s.fenced ls := by
  induction ls generalizing s with
  | nil => rfl
  | cons l ls ih =>
    rw [List.map_cons, fenced_cons, fenced_cons, isDelimiter_trim, next_trim, trim_trim, ih]

/-- Outside a fence blank lines are not fenced. -/
theorem fenced_none_blank {ls : List Line} (h : ∀ l ∈ ls, isBlankText l = true) :
    fenced none ls = [] := by
  induction ls with
  | nil => rfl
  | cons l ls ih =>
    obtain ⟨hl, hls⟩ := List.forall_mem_cons.mp h
    rw [fenced_cons, if_neg, proper_none.next_blank hl, ih hls]
    rw [proper_none.isDelimiter_blank hl]
    simp

/-- Inside a fence blank lines are fenced. -/
theorem Proper.fenced_blank {f : Fence} (h : Proper (some f)) {ls : List Line}
    (hls : ∀ l ∈ ls, isBlankText l = true) :
    fenced (some f) ls = List.replicate ls.length [] := by
  induction ls with
  | nil => rfl
  | cons l ls ih =>
    obtain ⟨hl, hls⟩ := List.forall_mem_cons.mp hls
    have hopen : (some f : FenceState).isSome = true ∨ isDelimiter (some f) l = true := Or.inl rfl
    rw [fenced_cons, if_pos hopen, h.next_blank hl, ih hls, trim_eq_nil_iff.mpr hl]
    rfl

/-! ## The core of a text -/

/-- Outside a fence leading blank lines do not count. -/
theorem after_dropWhile_isEmpty (ts : List Line) :
    after none (ts.dropWhile List.isEmpty) = after none ts := by
  have hblank : ∀ l ∈ ts.takeWhile List.isEmpty, isBlankText l = true := fun l hl =>
    isBlankText_of_isEmpty (List.mem_takeWhile_imp hl)
  conv_rhs => rw [← List.takeWhile_append_dropWhile (p := List.isEmpty) (l := ts), after_append,
    proper_none.after_blank hblank]

/-- Lines and their core lead to the same state. -/
theorem after_core (ts : List Line) : after none (core ts) = after none ts := by
  obtain ⟨as, bs, has, hbs, hts⟩ := eq_append_core_append ts
  conv_rhs => rw [hts, after_append, after_append, proper_none.after_blank has,
    (proper_none.after (core ts)).after_blank hbs]

/-- Lines and their core have the same fenced lines, up to blank lines at the end of a fence that
stays open. -/
theorem fenced_core (ts : List Line) :
    ∃ n, fenced none ts = fenced none (core ts) ++ List.replicate n [] ∧
      (after none ts = none → n = 0) := by
  obtain ⟨as, bs, has, hbs, hts⟩ := eq_append_core_append ts
  have hfenced : fenced none ts = fenced none (core ts) ++ fenced (after none ts) bs := by
    rw [← after_core ts]
    conv_lhs => rw [hts, List.append_assoc, fenced_append, fenced_append,
      fenced_none_blank has, proper_none.after_blank has, List.nil_append]
  -- the blank lines behind the core are fenced exactly if a fence is open there
  rcases hafter : after none ts with _ | f
  · refine ⟨0, ?_, fun _ => rfl⟩
    rw [hfenced, hafter, fenced_none_blank hbs]
    rfl
  · refine ⟨bs.length, ?_, fun h => nomatch h⟩
    have hproper : Proper (some f) := hafter ▸ proper_none.after ts
    rw [hfenced, hafter, hproper.fenced_blank hbs]

/-! ## Lines that open no fence -/

/-- The line opens no fence. -/
def Plain (l : Line) : Prop := Fence.openedBy? l = none

theorem after_none_plain {ls : List Line} (h : ∀ l ∈ ls, Plain l) : after none ls = none := by
  induction ls with
  | nil => rfl
  | cons l ls ih =>
    obtain ⟨hl, hls⟩ := List.forall_mem_cons.mp h
    rw [after_cons, next, hl, ih hls]

theorem fenced_none_plain {ls : List Line} (h : ∀ l ∈ ls, Plain l) : fenced none ls = [] := by
  induction ls with
  | nil => rfl
  | cons l ls ih =>
    obtain ⟨hl, hls⟩ := List.forall_mem_cons.mp h
    rw [fenced_cons, if_neg, next, hl, ih hls]
    rw [isDelimiter, hl]
    simp

theorem delimitedLength_cons_of_zero {s : FenceState} {l : Line} {ls : List Line}
    (h : delimitedLength (s.next l) ls = 0) :
    delimitedLength s (l :: ls) = if s.isDelimiter l then 1 else 0 := by
  rw [delimitedLength, h]

theorem delimitedLength_cons_of_succ {s : FenceState} {l : Line} {ls : List Line} {n : Nat}
    (h : delimitedLength (s.next l) ls = n + 1) : delimitedLength s (l :: ls) = n + 2 := by
  rw [delimitedLength, h]

/-- Without a delimiter the state stays what it is. -/
theorem after_of_delimitedLength_eq_zero {s : FenceState} {ls : List Line}
    (h : delimitedLength s ls = 0) : s.after ls = s := by
  induction ls generalizing s with
  | nil => rfl
  | cons l ls ih =>
    rcases hn : delimitedLength (s.next l) ls with _ | n
    · rw [delimitedLength_cons_of_zero hn] at h
      split at h
      · cases h
      · rename_i hl
        rw [after_cons, ih hn, next_of_not_isDelimiter (eq_false_of_ne_true hl)]
    · rw [delimitedLength_cons_of_succ hn] at h
      cases h

/-- Lines up to the last delimiter, or further, lead where all of them lead. -/
theorem after_take {s : FenceState} {ls : List Line} {n : Nat} (h : delimitedLength s ls ≤ n) :
    s.after (ls.take n) = s.after ls := by
  induction ls generalizing s n with
  | nil => rw [List.take_nil]
  | cons l ls ih =>
    rcases n with _ | n
    · rw [List.take_zero, after_nil, after_of_delimitedLength_eq_zero (Nat.le_zero.mp h)]
    · rw [List.take_succ_cons, after_cons, after_cons]
      refine ih ?_
      rcases hk : delimitedLength (s.next l) ls with _ | k
      · exact Nat.zero_le n
      · rw [delimitedLength_cons_of_succ hk] at h
        exact Nat.le_of_succ_le_succ h

/-- The lines after the last delimiter are none for the state that the text ends in. -/
theorem not_isDelimiter_of_mem_drop {s : FenceState} {ls : List Line} :
    ∀ l ∈ ls.drop (delimitedLength s ls), (s.after ls).isDelimiter l = false := by
  induction ls generalizing s with
  | nil => exact fun l hl => absurd hl List.not_mem_nil
  | cons m ls ih =>
    have ih' := ih (s := s.next m)
    rw [after_cons]
    -- without a delimiter further on, the state after this line is the last one
    rcases hn : delimitedLength (s.next m) ls with _ | n
    · rw [hn, List.drop_zero] at ih'
      rw [delimitedLength_cons_of_zero hn]
      by_cases hm : s.isDelimiter m = true
      · rw [if_pos hm]
        exact ih'
      · have hm' := eq_false_of_ne_true hm
        have hkeep : (s.next m).after ls = s := by
          rw [after_of_delimitedLength_eq_zero hn, next_of_not_isDelimiter hm']
        rw [hkeep] at ih' ⊢
        rw [if_neg hm, List.drop_zero]
        exact List.forall_mem_cons.mpr ⟨hm', ih'⟩
    · rw [hn] at ih'
      rw [delimitedLength_cons_of_succ hn]
      exact ih'

/-- **Lines after the last delimiter of a text without an open fence open none.** -/
theorem plain_of_mem_drop {ls : List Line} (h : after none ls = none) {n : Nat}
    (hn : delimitedLength none ls ≤ n) : ∀ l ∈ ls.drop n, Plain l := by
  intro l hl
  have hdrop : ls.drop n <:+ ls.drop (delimitedLength none ls) :=
    List.drop_suffix_drop_left ls hn
  have hdelim := not_isDelimiter_of_mem_drop l (hdrop.subset hl)
  rw [h] at hdelim
  exact Option.isNone_iff_eq_none.mp (Option.isSome_eq_false_iff.mp hdelim)

/-! ## Groups of lines -/

/-- Groups of lines that no fence reaches across: read in state `s`, every group but the last ends
with no fence open, and the last one ends in state `t`. -/
def Sealed (t : FenceState) : FenceState → List (List Line) → Prop
  | s, [] => s = t
  | s, [g] => s.after g = t
  | s, g :: h :: gs => s.after g = none ∧ Sealed t none (h :: gs)

theorem sealed_cons {t s : FenceState} {g : List Line} {gs : List (List Line)}
    (hg : s.after g = none) (hgs : Sealed t none gs) : Sealed t s (g :: gs) := by
  cases gs with
  | nil => exact hg.trans hgs
  | cons h gs => exact ⟨hg, hgs⟩

theorem Sealed.of_ne_nil {t s : FenceState} {g : List Line} {gs : List (List Line)}
    (h : Sealed t s (g :: gs)) (hgs : gs ≠ []) : s.after g = none ∧ Sealed t none gs := by
  cases gs with
  | nil => exact absurd rfl hgs
  | cons g' gs => exact h

/-- The first group may be read from its second line on. -/
theorem Sealed.cons_line {t s : FenceState} {l : Line} {g : List Line} {gs : List (List Line)}
    (h : Sealed t (s.next l) (g :: gs)) : Sealed t s ((l :: g) :: gs) := by
  cases gs with
  | nil => exact h
  | cons g' gs => exact h

/-- A first group without lines does not count. -/
theorem Sealed.of_nil_cons {t : FenceState} {gs : List (List Line)}
    (h : Sealed t none ([] :: gs)) : Sealed t none gs := by
  cases gs with
  | nil => exact h
  | cons g gs => exact h.2

theorem Sealed.append {t : FenceState} {as bs : List (List Line)} (has : Sealed none none as)
    (hbs : Sealed t none bs) : Sealed t none (as ++ bs) := by
  induction as with
  | nil => exact hbs
  | cons a as ih =>
    cases as with
    | nil => exact sealed_cons has hbs
    | cons b as => exact sealed_cons has.1 (ih has.2)

/-- The last group is where the state of the whole is reached. -/
theorem Sealed.after_getLast {t : FenceState} {gs : List (List Line)} (h : Sealed t none gs)
    {g : List Line} (hg : gs.getLast? = some g) : after none g = t := by
  induction gs with
  | nil => cases hg
  | cons a as ih =>
    cases as with
    | nil => rwa [← Option.some.inj hg]
    | cons b as => exact ih h.2 (List.getLast?_cons_cons ▸ hg)

theorem Sealed.after_of_mem_dropLast {t : FenceState} {gs : List (List Line)}
    (h : Sealed t none gs) {g : List Line} (hg : g ∈ gs.dropLast) : after none g = none := by
  induction gs with
  | nil => cases hg
  | cons a as ih =>
    cases as with
    | nil => cases hg
    | cons b as =>
      rw [List.dropLast_cons_cons] at hg
      rcases List.mem_cons.mp hg with rfl | hg
      · exact h.1
      · exact ih h.2 hg

/-- Each group may be cut into groups in turn. -/
theorem Sealed.flatMap {α : Type} {t : FenceState} {as : List α} {f : α → List Line}
    {k : α → List (List Line)} (h : Sealed t none (as.map f))
    (hk : ∀ a ∈ as, Sealed (after none (f a)) none (k a)) : Sealed t none (as.flatMap k) := by
  induction as with
  | nil => exact h
  | cons a as ih =>
    obtain ⟨ha, has⟩ := List.forall_mem_cons.mp hk
    rcases eq_or_ne as [] with rfl | hne
    · rw [List.flatMap_cons, List.flatMap_nil, List.append_nil]
      exact (show after none (f a) = t from h) ▸ ha
    · obtain ⟨hnone, hrest⟩ := h.of_ne_nil (mt List.map_eq_nil_iff.mp hne)
      rw [hnone] at ha
      exact ha.append (ih hrest has)

/-- Groups may be changed without changing where they lead. -/
theorem Sealed.map {α : Type} {t : FenceState} {as : List α} {f g : α → List Line}
    (h : Sealed t none (as.map f)) (hg : ∀ a ∈ as, after none (g a) = after none (f a)) :
    Sealed t none (as.map g) := by
  rw [← List.flatMap_singleton' (as.map g), List.flatMap_map]
  exact h.flatMap fun a ha => hg a ha

/-- **The fenced lines of groups that no fence reaches across are those of each group.** -/
theorem Sealed.fenced_flatten {t : FenceState} {gs : List (List Line)} (h : Sealed t none gs) :
    fenced none gs.flatten = gs.flatMap (fenced none) := by
  induction gs with
  | nil => rfl
  | cons g gs ih =>
    rw [List.flatten_cons, List.flatMap_cons, fenced_append]
    rcases eq_or_ne gs [] with rfl | hne
    · rfl
    · obtain ⟨hg, hgs⟩ := h.of_ne_nil hne
      rw [hg, ih hgs]

end FenceState

end MarkdownIndex.Markdown
