import Mathlib.Data.List.DropRight
import MarkdownIndex.Text.Blank

/-!
# Lines: what trimming and joining leave of them

The content of a chunk is made by joining lines and trimming the result, and it is read by cutting
it into lines again. Here the two are put together:

* `trim` — blanks at the ends of a text do not matter to it, and it does nothing twice.
* `lines` — no line holds a line feed, and text in front of a line feed is one line, but for a
  carriage return.
* `core` — trimmed lines without the blank ones at both ends.
* `written` — the lines that are not blank, trimmed.
* `map_trim_lines_trim_joinLines` — joining lines, trimming and cutting again gives their `core`.

With the last one, everything else about chunks is said of lists of lines and never of characters.
-/

namespace MarkdownIndex.Text

/-! ## Blank texts -/

theorem isBlank_carriageReturn : isBlank '\r' = true := by decide

theorem isBlank_newline : isBlank '\n' = true := by decide

theorem isBlankText_carriageReturn : isBlankText ['\r'] = true := by decide

theorem isBlankText_newline : isBlankText ['\n'] = true := by decide

theorem isBlankText_iff {cs : List Char} : isBlankText cs = true ↔ ∀ c ∈ cs, isBlank c = true := by
  rw [isBlankText, List.all_eq_true]

theorem isBlankText_cons {c : Char} {cs : List Char} :
    isBlankText (c :: cs) = true ↔ isBlank c = true ∧ isBlankText cs = true := by
  rw [isBlankText_iff, List.forall_mem_cons, isBlankText_iff]

theorem isBlankText_append {as bs : List Char} :
    isBlankText (as ++ bs) = true ↔ isBlankText as = true ∧ isBlankText bs = true := by
  rw [isBlankText_iff, List.forall_mem_append, ← isBlankText_iff, ← isBlankText_iff]

theorem trimStart_eq_nil_iff {cs : List Char} : trimStart cs = [] ↔ isBlankText cs = true := by
  rw [trimStart, List.dropWhile_eq_nil_iff, isBlankText_iff]

theorem trimEnd_eq_rdropWhile (cs : List Char) : trimEnd cs = cs.rdropWhile isBlank := rfl

theorem trimEnd_eq_nil_iff {cs : List Char} : trimEnd cs = [] ↔ isBlankText cs = true := by
  rw [trimEnd_eq_rdropWhile, List.rdropWhile_eq_nil_iff, isBlankText_iff]

/-! ## Trimming -/

theorem trimStart_append_of_blank {as : List Char} (h : isBlankText as = true) (bs : List Char) :
    trimStart (as ++ bs) = trimStart bs := by
  rw [trimStart, List.dropWhile_append, if_pos]
  · rfl
  · rw [List.isEmpty_iff]
    exact trimStart_eq_nil_iff.mpr h

theorem trimStart_append_of_solid {as : List Char} (h : ¬ isBlankText as = true)
    (bs : List Char) : trimStart (as ++ bs) = trimStart as ++ bs := by
  rw [trimStart, List.dropWhile_append, if_neg]
  · rfl
  · rw [List.isEmpty_iff]
    exact mt trimStart_eq_nil_iff.mp h

theorem trimEnd_append_of_blank (as : List Char) {bs : List Char} (h : isBlankText bs = true) :
    trimEnd (as ++ bs) = trimEnd as := by
  have hrev : isBlankText bs.reverse = true := by rwa [isBlankText, List.all_reverse]
  rw [trimEnd, List.reverse_append]
  exact congrArg List.reverse (trimStart_append_of_blank hrev as.reverse)

theorem trimEnd_append_of_solid (as : List Char) {bs : List Char} (h : ¬ isBlankText bs = true) :
    trimEnd (as ++ bs) = as ++ trimEnd bs := by
  have hrev : ¬ isBlankText bs.reverse = true := by rwa [isBlankText, List.all_reverse]
  rw [trimEnd, List.reverse_append]
  refine (congrArg List.reverse (trimStart_append_of_solid hrev as.reverse)).trans ?_
  rw [List.reverse_append, List.reverse_reverse]
  rfl

theorem trim_append_of_blank (as : List Char) {bs : List Char} (h : isBlankText bs = true) :
    trim (as ++ bs) = trim as := by
  rw [trim, trim]
  by_cases has : isBlankText as = true
  · rw [trimStart_append_of_blank has, trimStart_eq_nil_iff.mpr h, trimStart_eq_nil_iff.mpr has]
  · rw [trimStart_append_of_solid has, trimEnd_append_of_blank _ h]

theorem trim_append_of_blank_left {as : List Char} (h : isBlankText as = true) (bs : List Char) :
    trim (as ++ bs) = trim bs := by
  rw [trim, trim, trimStart_append_of_blank h]

/-- Trimming at the end only takes blanks off what is trimmed at the start. -/
theorem trimStart_eq_trim_append (cs : List Char) :
    ∃ bs, isBlankText bs = true ∧ trimStart cs = trim cs ++ bs :=
  ⟨(trimStart cs).rtakeWhile isBlank,
    isBlankText_iff.mpr fun _ hc => List.mem_rtakeWhile_imp hc,
    List.rdropWhile_append_rtakeWhile.symm⟩

/-- A text is its trimmed form between blanks. -/
theorem eq_append_trim_append (cs : List Char) :
    ∃ as bs, isBlankText as = true ∧ isBlankText bs = true ∧ cs = as ++ trim cs ++ bs := by
  obtain ⟨bs, hbs, hstart⟩ := trimStart_eq_trim_append cs
  refine ⟨cs.takeWhile isBlank, bs, isBlankText_iff.mpr fun c hc => List.mem_takeWhile_imp hc,
    hbs, ?_⟩
  rw [List.append_assoc, ← hstart, trimStart, List.takeWhile_append_dropWhile]

theorem infix_trim (cs : List Char) : trim cs <:+: cs := by
  obtain ⟨as, bs, -, -, hcs⟩ := eq_append_trim_append cs
  exact ⟨as, bs, hcs.symm⟩

@[simp] theorem trim_trim (cs : List Char) : trim (trim cs) = trim cs := by
  obtain ⟨as, bs, has, hbs, hcs⟩ := eq_append_trim_append cs
  conv_rhs => rw [hcs, trim_append_of_blank _ hbs, trim_append_of_blank_left has]

/-- A text is trimmed to nothing exactly if it is blank. -/
theorem trim_eq_nil_iff {cs : List Char} : trim cs = [] ↔ isBlankText cs = true := by
  constructor
  · intro h
    obtain ⟨as, bs, has, hbs, hcs⟩ := eq_append_trim_append cs
    rw [hcs, h, List.append_nil, isBlankText, List.all_append, ← isBlankText, ← isBlankText, has,
      hbs]
    rfl
  · intro h
    rw [trim, trimStart_eq_nil_iff.mpr h]
    rfl

@[simp] theorem trimStart_trim (cs : List Char) : trimStart (trim cs) = trim cs := by
  by_cases h : isBlankText (trim cs) = true
  · rw [trimStart_eq_nil_iff.mpr h, ← trim_trim, trim_eq_nil_iff.mpr h]
  · obtain ⟨bs, -, hstart⟩ := trimStart_eq_trim_append cs
    have htwice : trimStart (trimStart cs) = trimStart cs := List.dropWhile_idempotent _ _
    rw [hstart, trimStart_append_of_solid h] at htwice
    exact List.append_cancel_right htwice

theorem isEmpty_trim (cs : List Char) : (trim cs).isEmpty = isBlankText cs := by
  rw [Bool.eq_iff_iff, List.isEmpty_iff, trim_eq_nil_iff]

/-! ## Cutting into lines -/

theorem lines_cons {c : Char} {cs : List Char} (hc : c ≠ '\n')
    (hcr : ∀ cs', c = '\r' → cs ≠ '\n' :: cs') : lines (c :: cs) = consLine c (lines cs) := by
  rw [lines]
  · exact hc
  · exact hcr

/-- A line holds no line feed. -/
theorem newline_not_mem_of_mem_lines {cs : List Char} : ∀ l ∈ lines cs, '\n' ∉ l := by
  fun_induction lines cs with
  | case1 => exact fun l hl => absurd hl List.not_mem_nil
  | case2 cs ih => exact List.forall_mem_cons.mpr ⟨List.not_mem_nil, ih⟩
  | case3 cs ih => exact List.forall_mem_cons.mpr ⟨List.not_mem_nil, ih⟩
  | case4 c cs hc hcr ih =>
    have hne : '\n' ≠ c := fun h => hc h.symm
    rcases hls : lines cs with _ | ⟨l, ls⟩
    · simp [consLine, hne]
    · rw [hls] at ih
      obtain ⟨hl, hls⟩ := List.forall_mem_cons.mp ih
      refine List.forall_mem_cons.mpr ⟨?_, hls⟩
      exact List.not_mem_cons_of_ne_of_not_mem hne hl

/-- Text without a line feed is one line. -/
theorem lines_eq_singleton {l : Line} (h : '\n' ∉ l) (hne : l ≠ []) : lines l = [l] := by
  induction l with
  | nil => exact absurd rfl hne
  | cons c l ih =>
    obtain ⟨hc, hl⟩ := not_or.mp (mt List.mem_cons.mpr h)
    have hcr : ∀ cs', c = '\r' → l ≠ '\n' :: cs' := by
      rintro cs' - rfl
      exact hl (List.mem_cons_self ..)
    rw [lines_cons (Ne.symm hc) hcr]
    rcases l with _ | ⟨d, l⟩
    · rfl
    · rw [ih hl (List.cons_ne_nil d l)]
      rfl

/-- Text up to a line feed is one line, less a carriage return at its end. -/
theorem lines_append_newline {l : Line} (h : '\n' ∉ l) (cs : List Char) :
    ∃ l', lines (l ++ '\n' :: cs) = l' :: lines cs ∧ (l = l' ∨ l = l' ++ ['\r']) := by
  induction l with
  | nil => exact ⟨[], rfl, Or.inl rfl⟩
  | cons c l ih =>
    obtain ⟨hc, hl⟩ := not_or.mp (mt List.mem_cons.mpr h)
    obtain ⟨l', hlines, hl'⟩ := ih hl
    -- a carriage return counts for nothing only directly before the line feed
    by_cases hcr : c = '\r' ∧ l = []
    · obtain ⟨rfl, rfl⟩ := hcr
      exact ⟨[], rfl, Or.inr rfl⟩
    · refine ⟨c :: l', ?_, ?_⟩
      · rw [List.cons_append, lines_cons (Ne.symm hc), hlines]
        · rfl
        · intro cs' hr hcs'
          rcases l with _ | ⟨d, l⟩
          · exact hcr ⟨hr, rfl⟩
          · exact hl (List.mem_cons.mpr (Or.inl (List.head_eq_of_cons_eq hcs').symm))
      · exact hl'.imp (congrArg (c :: ·)) (congrArg (c :: ·))

/-- Induction along the lines of a text. -/
theorem lines_induction {P : List Char → List Line → Prop} (nil : P [] [])
    (last : ∀ l, '\n' ∉ l → l ≠ [] → P l [l])
    (cut : ∀ l l' cs, l = l' ∨ l = l' ++ ['\r'] → P cs (lines cs) →
      P (l ++ '\n' :: cs) (l' :: lines cs)) (cs : List Char) : P cs (lines cs) := by
  -- a text that is cut leads to a shorter one
  induction hn : cs.length using Nat.strong_induction_on generalizing cs with
  | _ n ih =>
    by_cases hcut : '\n' ∈ cs
    · obtain ⟨l, rest, rfl, hl⟩ := List.eq_append_cons_of_mem hcut
      obtain ⟨l', hlines, hl'⟩ := lines_append_newline hl rest
      rw [hlines]
      refine cut l l' rest hl' (ih rest.length ?_ rest rfl)
      rw [← hn, List.length_append, List.length_cons]
      omega
    · rcases eq_or_ne cs [] with rfl | hne
      · exact nil
      · rw [lines_eq_singleton hcut hne]
        exact last cs hcut hne

/-- A line stands in the text in one piece. -/
theorem infix_of_mem_lines (cs : List Char) : ∀ l ∈ lines cs, l <:+: cs := by
  refine lines_induction (P := fun cs ls => ∀ l ∈ ls, l <:+: cs) ?_ ?_ ?_ cs
  · exact fun l hl => absurd hl List.not_mem_nil
  · exact fun l _ _ => List.forall_mem_singleton.mpr (List.infix_refl l)
  · intro l l' cs hl' ih
    have hstart : l' <+: l := by
      rcases hl' with rfl | rfl
      · exact List.prefix_refl l
      · exact List.prefix_append l' _
    refine List.forall_mem_cons.mpr ⟨?_, fun m hm => ?_⟩
    · exact (hstart.trans (List.prefix_append l _)).isInfix
    · exact (ih m hm).trans (((List.suffix_cons '\n' cs).trans (List.suffix_append l _)).isInfix)

/-- A text has no more lines than characters. -/
theorem length_lines_le (cs : List Char) : (lines cs).length ≤ cs.length := by
  refine lines_induction (P := fun cs ls => ls.length ≤ cs.length) ?_ ?_ ?_ cs
  · exact Nat.le_refl 0
  · exact fun l _ hne => List.length_pos_iff.mpr hne
  · intro l l' cs _ ih
    rw [List.length_cons, List.length_append, List.length_cons]
    omega

/-- A text is blank if and only if its lines are. -/
theorem forall_isBlankText_lines (cs : List Char) :
    (∀ l ∈ lines cs, isBlankText l = true) ↔ isBlankText cs = true := by
  refine lines_induction
    (P := fun cs ls => (∀ l ∈ ls, isBlankText l = true) ↔ isBlankText cs = true) ?_ ?_ ?_ cs
  · exact iff_of_true (fun l hl => nomatch hl) rfl
  · exact fun l _ _ => List.forall_mem_singleton
  · intro l l' cs hl' ih
    -- the carriage return that the cut may have taken is blank
    have hblank : isBlankText l' = true ↔ isBlankText l = true := by
      rcases hl' with rfl | rfl
      · rfl
      · rw [isBlankText_append, and_iff_left isBlankText_carriageReturn]
    rw [List.forall_mem_cons, ih, hblank, isBlankText_append, isBlankText_cons,
      and_iff_right isBlank_newline]

/-! ## Joining lines and cutting again -/

@[simp] theorem joinLines_singleton (l : Line) : joinLines [l] = l := rfl

theorem joinLines_cons (l : Line) {ls : List Line} (h : ls ≠ []) :
    joinLines (l :: ls) = l ++ '\n' :: joinLines ls := by
  obtain ⟨m, ls, rfl⟩ := List.exists_cons_of_ne_nil h
  rw [joinLines, joinLines, joinWith, List.append_assoc]
  rfl

theorem joinLines_concat {ls : List Line} (h : ls ≠ []) (l : Line) :
    joinLines (ls ++ [l]) = joinLines ls ++ '\n' :: l := by
  induction ls with
  | nil => exact absurd rfl h
  | cons m ls ih =>
    rw [List.cons_append, joinLines_cons _ (by simp)]
    rcases ls with _ | ⟨k, ls⟩
    · rfl
    · rw [ih (List.cons_ne_nil k ls), joinLines_cons _ (List.cons_ne_nil k ls),
        List.append_assoc]
      rfl

/-- Cutting joined lines gives them back, but for blanks at their ends and a last empty line. -/
theorem map_trim_lines_joinLines {ls : List Line} (h : ∀ l ∈ ls, '\n' ∉ l)
    (hlast : ∀ l ∈ ls.getLast?, l ≠ []) : (lines (joinLines ls)).map trim = ls.map trim := by
  induction ls with
  | nil => rfl
  | cons l ls ih =>
    obtain ⟨hl, hls⟩ := List.forall_mem_cons.mp h
    rcases eq_or_ne ls [] with rfl | hne
    · rw [joinLines_singleton, lines_eq_singleton hl (hlast l rfl)]
    · obtain ⟨l', hlines, hl'⟩ := lines_append_newline hl (joinLines ls)
      -- the carriage return that the cut may have taken is blank
      have htrim : trim l' = trim l := by
        rcases hl' with rfl | rfl
        · rfl
        · exact (trim_append_of_blank l' isBlankText_carriageReturn).symm
      have hlast' : ∀ m ∈ ls.getLast?, m ≠ [] := by
        intro m hm
        refine hlast m ?_
        rw [Option.mem_def, List.getLast?_cons, hm]
        rfl
      rw [joinLines_cons _ hne, hlines, List.map_cons, List.map_cons, htrim, ih hls hlast']

/-! ## Trimming joined lines -/

/-- Trimming joined lines at the start takes the leading blank lines away. -/
theorem trimStart_joinLines {ls : List Line} (h : ∀ l ∈ ls, '\n' ∉ l) :
    ∃ ls' : List Line, trimStart (joinLines ls) = joinLines ls' ∧
      ls'.map trim = (ls.map trim).dropWhile List.isEmpty ∧ ∀ l ∈ ls', '\n' ∉ l := by
  induction ls with
  | nil => exact ⟨[], rfl, rfl, h⟩
  | cons l ls ih =>
    obtain ⟨hl, hls⟩ := List.forall_mem_cons.mp h
    -- a blank line goes away as a whole, and any other stops the trimming
    by_cases hb : isBlankText l = true
    · obtain ⟨ls', hstart, hmap, hls'⟩ := ih hls
      refine ⟨ls', ?_, ?_, hls'⟩
      · rcases eq_or_ne ls [] with rfl | hne
        · rw [← hstart, joinLines_singleton, trimStart_eq_nil_iff.mpr hb]
          rfl
        · rw [joinLines_cons _ hne, ← hstart, trimStart_append_of_blank hb]
          exact trimStart_append_of_blank isBlankText_newline _
      · rw [List.map_cons, List.dropWhile_cons_of_pos (by rw [isEmpty_trim, hb]), hmap]
    · refine ⟨trimStart l :: ls, ?_, ?_, ?_⟩
      · rcases eq_or_ne ls [] with rfl | hne
        · rfl
        · rw [joinLines_cons _ hne, joinLines_cons _ hne, trimStart_append_of_solid hb]
      · obtain ⟨bs, hbs, hstart⟩ := trimStart_eq_trim_append l
        rw [List.map_cons, List.map_cons, List.dropWhile_cons_of_neg (by rwa [isEmpty_trim]),
          hstart, trim_append_of_blank _ hbs, trim_trim]
      · exact List.forall_mem_cons.mpr
          ⟨fun hmem => hl ((List.dropWhile_suffix _).subset hmem), hls⟩

/-- Trimming joined lines at the end takes the final blank lines away. -/
theorem trimEnd_joinLines {ls : List Line} (h : ∀ l ∈ ls, '\n' ∉ l) :
    ∃ ls' : List Line, trimEnd (joinLines ls) = joinLines ls' ∧
      ls'.map trim = (ls.map trim).rdropWhile List.isEmpty ∧ (∀ l ∈ ls', '\n' ∉ l) ∧
      ∀ l ∈ ls'.getLast?, l ≠ [] := by
  induction ls using List.reverseRecOn with
  | nil => exact ⟨[], rfl, rfl, h, fun l hl => by simp at hl⟩
  | append_singleton ls l ih =>
    obtain ⟨hls, hl⟩ := List.forall_mem_append.mp h
    replace hl := hl l (List.mem_singleton_self l)
    rw [List.map_append, List.map_singleton]
    by_cases hb : isBlankText l = true
    · obtain ⟨ls', hend, hmap, hls', hlast⟩ := ih hls
      refine ⟨ls', ?_, ?_, hls', hlast⟩
      · rcases eq_or_ne ls [] with rfl | hne
        · rw [← hend, List.nil_append, joinLines_singleton, trimEnd_eq_nil_iff.mpr hb]
          rfl
        · rw [joinLines_concat hne, ← hend]
          exact trimEnd_append_of_blank _ (isBlankText_cons.mpr ⟨isBlank_newline, hb⟩)
      · rw [List.rdropWhile_concat_pos _ _ _ (by rw [isEmpty_trim, hb]), hmap]
    · refine ⟨ls ++ [trimEnd l], ?_, ?_, ?_, ?_⟩
      · rcases eq_or_ne ls [] with rfl | hne
        · rfl
        · rw [joinLines_concat hne, joinLines_concat hne,
            List.append_cons (joinLines ls) '\n' l, trimEnd_append_of_solid _ hb,
            ← List.append_cons]
      · obtain ⟨bs, hbs, hend⟩ : ∃ bs, isBlankText bs = true ∧ l = trimEnd l ++ bs :=
          ⟨l.rtakeWhile isBlank, isBlankText_iff.mpr fun _ hc => List.mem_rtakeWhile_imp hc,
            List.rdropWhile_append_rtakeWhile.symm⟩
        rw [List.rdropWhile_concat_neg _ _ _ (by rwa [isEmpty_trim]), List.map_append,
          List.map_singleton]
        conv_rhs => rw [hend, trim_append_of_blank _ hbs]
      · refine List.forall_mem_append.mpr ⟨hls, ?_⟩
        intro m hm
        rw [List.mem_singleton.mp hm]
        exact fun hmem => hl ((List.rdropWhile_prefix isBlank l).subset hmem)
      · intro m hm
        rw [List.getLast?_concat, Option.mem_some_iff] at hm
        rw [← hm]
        exact mt trimEnd_eq_nil_iff.mp hb

/-! ## The core of trimmed lines -/

/-- Trimmed lines without the blank ones at both ends. -/
def core (ts : List Line) : List Line :=
  (ts.dropWhile List.isEmpty).rdropWhile List.isEmpty

/-- **Joining lines, trimming and cutting again gives the core of the trimmed lines.** -/
theorem map_trim_lines_trim_joinLines {ls : List Line} (h : ∀ l ∈ ls, '\n' ∉ l) :
    (lines (trim (joinLines ls))).map trim = core (ls.map trim) := by
  obtain ⟨ls₁, hstart, hmap₁, hls₁⟩ := trimStart_joinLines h
  obtain ⟨ls₂, hend, hmap₂, hls₂, hlast⟩ := trimEnd_joinLines hls₁
  rw [trim, hstart, hend, map_trim_lines_joinLines hls₂ hlast, hmap₂, hmap₁, core]

theorem isBlankText_of_isEmpty {l : Line} (h : l.isEmpty = true) : isBlankText l = true := by
  rw [List.isEmpty_iff.mp h]
  rfl

/-- Trimmed lines are blank ones, their core, and blank ones again. -/
theorem eq_append_core_append (ts : List Line) :
    ∃ as bs, (∀ l ∈ as, isBlankText l = true) ∧ (∀ l ∈ bs, isBlankText l = true) ∧
      ts = as ++ core ts ++ bs := by
  refine ⟨ts.takeWhile List.isEmpty, (ts.dropWhile List.isEmpty).rtakeWhile List.isEmpty,
    fun l hl => isBlankText_of_isEmpty (List.mem_takeWhile_imp hl),
    fun l hl => isBlankText_of_isEmpty (List.mem_rtakeWhile_imp hl), ?_⟩
  rw [core, List.append_assoc, List.rdropWhile_append_rtakeWhile,
    List.takeWhile_append_dropWhile]

theorem length_core_le (ts : List Line) : (core ts).length ≤ ts.length := by
  obtain ⟨as, bs, -, -, hts⟩ := eq_append_core_append ts
  conv_rhs => rw [hts, List.length_append, List.length_append]
  omega

theorem rdropWhile_append_of_ne_nil {α : Type} {p : α → Bool} (as : List α) {bs : List α}
    (h : bs.rdropWhile p ≠ []) : (as ++ bs).rdropWhile p = as ++ bs.rdropWhile p := by
  have hrev : bs.reverse.dropWhile p ≠ [] := mt List.reverse_eq_nil_iff.mpr h
  rw [List.rdropWhile, List.reverse_append, List.dropWhile_append,
    if_neg (mt List.isEmpty_iff.mp hrev), List.reverse_append, List.reverse_reverse]
  rfl

theorem dropWhile_isEmpty_of_head {ts : List Line} (h : ∀ t ∈ ts.head?, t ≠ []) :
    ts.dropWhile List.isEmpty = ts := by
  rcases ts with _ | ⟨t, ts⟩
  · rfl
  · exact List.dropWhile_cons_of_neg (mt List.isEmpty_iff.mp (h t rfl))

/-- Lines that do not start with a blank one are at the start of the core, if a line that is not
blank comes after them. -/
theorem prefix_core_append {as bs : List Line} (has : ∀ t ∈ as.head?, t ≠ [])
    (hbs : ∃ t ∈ bs, t ≠ []) : as <+: core (as ++ bs) := by
  rcases as with _ | ⟨a, as⟩
  · exact List.nil_prefix
  · have hdrop : bs.rdropWhile List.isEmpty ≠ [] := by
      obtain ⟨t, ht, hne⟩ := hbs
      intro hnil
      exact hne (List.isEmpty_iff.mp (List.rdropWhile_eq_nil_iff.mp hnil t ht))
    have hkeep : (a :: as ++ bs).dropWhile List.isEmpty = a :: as ++ bs :=
      dropWhile_isEmpty_of_head has
    rw [core, hkeep, rdropWhile_append_of_ne_nil _ hdrop]
    exact List.prefix_append _ _

/-- Lines that neither start nor end with a blank one are the end of the core, if they come last. -/
theorem core_append {as bs : List Line} (hne : bs ≠ []) (hhead : ∀ t ∈ bs.head?, t ≠ [])
    (hlast : ∀ t ∈ bs.getLast?, t ≠ []) : core (as ++ bs) = as.dropWhile List.isEmpty ++ bs := by
  have hend : bs.rdropWhile List.isEmpty = bs := by
    rw [List.rdropWhile_eq_self_iff]
    exact fun hl => mt List.isEmpty_iff.mp (hlast _ (List.getLast?_eq_some_getLast hl))
  have hdrop : (as ++ bs).dropWhile List.isEmpty = as.dropWhile List.isEmpty ++ bs := by
    rw [List.dropWhile_append]
    split
    · rename_i hnil
      rw [List.isEmpty_iff.mp hnil, dropWhile_isEmpty_of_head hhead, List.nil_append]
    · rfl
  rw [core, hdrop, rdropWhile_append_of_ne_nil _ (hend.symm ▸ hne), hend]

/-! ## Written lines -/

/-- The lines that have something written on them, trimmed. -/
def written (ls : List Line) : List Line := (ls.map trim).filter fun l => !l.isEmpty

@[simp] theorem written_nil : written [] = [] := rfl

@[simp] theorem written_append (as bs : List Line) :
    written (as ++ bs) = written as ++ written bs := by
  rw [written, List.map_append, List.filter_append]
  rfl

theorem written_cons_of_blank {l : Line} (h : isBlankText l = true) (ls : List Line) :
    written (l :: ls) = written ls := by
  rw [written, List.map_cons, List.filter_cons_of_neg]
  · rfl
  · rw [isEmpty_trim, h]
    exact Bool.false_ne_true

theorem written_cons_of_solid {l : Line} (h : ¬ isBlankText l = true) (ls : List Line) :
    written (l :: ls) = trim l :: written ls := by
  rw [written, List.map_cons, List.filter_cons_of_pos]
  · rfl
  · rw [isEmpty_trim, eq_false_of_ne_true h]
    rfl

theorem written_eq_nil_of_blank {ls : List Line} (h : ∀ l ∈ ls, isBlankText l = true) :
    written ls = [] := by
  induction ls with
  | nil => rfl
  | cons l ls ih =>
    obtain ⟨hl, hls⟩ := List.forall_mem_cons.mp h
    rw [written_cons_of_blank hl, ih hls]

theorem written_flatten (gs : List (List Line)) : written gs.flatten = gs.flatMap written := by
  induction gs with
  | nil => rfl
  | cons g gs ih => rw [List.flatten_cons, written_append, ih, List.flatMap_cons]

theorem written_map_trim (ls : List Line) : written (ls.map trim) = written ls := by
  rw [written, List.map_map, written]
  exact congrArg (List.filter _) (List.map_congr_left fun l _ => trim_trim l)

/-- Lines and their core have the same written lines. -/
theorem written_core (ts : List Line) : written (core ts) = written ts := by
  obtain ⟨as, bs, has, hbs, hts⟩ := eq_append_core_append ts
  conv_rhs => rw [hts, written_append, written_append, written_eq_nil_of_blank has,
    written_eq_nil_of_blank hbs, List.append_nil, List.nil_append]

end MarkdownIndex.Text
