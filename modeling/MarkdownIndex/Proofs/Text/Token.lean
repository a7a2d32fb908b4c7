import MarkdownIndex.Proofs.Text.Lines
import MarkdownIndex.Text.Alphanumeric
import MarkdownIndex.Text.Token

/-!
# Tokens: the words of a text are those of its lines

* `runsOutside_append_cons` — a character of the class parts what is before it from what is after.
* `runsOutside_trim`, `flatMap_runsOutside_lines` — runs of a class that holds the white space are
  neither lost by trimming nor by cutting at line ends.
* `isAlphanumeric_of_isBlank` — white space is not alphanumeric, so all this is true of tokens.
* `tokens_run` — a run taken for itself has one token.
-/

namespace MarkdownIndex.Text

/-! ## Pieces between items of a class -/

section Pieces

variable {α : Type} {sep : α → Bool}

theorem splitAtClass_ne_nil (sep : α → Bool) (cs : List α) : splitAtClass sep cs ≠ [] := by
  cases cs with
  | nil => exact List.cons_ne_nil _ _
  | cons c cs =>
    rw [splitAtClass]
    split
    · exact List.cons_ne_nil _ _
    · rcases splitAtClass sep cs with _ | ⟨p, ps⟩
      · exact List.cons_ne_nil _ _
      · exact List.cons_ne_nil _ _

theorem splitAtClass_append_cons (as : List α) {c : α} (hc : sep c = true)
    (bs : List α) :
    splitAtClass sep (as ++ c :: bs) = splitAtClass sep as ++ splitAtClass sep bs := by
  induction as with
  | nil =>
    rw [List.nil_append, splitAtClass, splitAtClass, if_pos hc]
    rfl
  | cons a as ih =>
    rw [List.cons_append, splitAtClass, splitAtClass, ih]
    split
    · rfl
    · obtain ⟨p, ps, hps⟩ := List.exists_cons_of_ne_nil (splitAtClass_ne_nil sep as)
      rw [hps]
      rfl

/-- A text without items of the class is one piece. -/
theorem splitAtClass_of_solid {cs : List α} (h : ∀ c ∈ cs, sep c = false) :
    splitAtClass sep cs = [cs] := by
  induction cs with
  | nil => rfl
  | cons c cs ih =>
    obtain ⟨hc, hcs⟩ := List.forall_mem_cons.mp h
    rw [splitAtClass, hc, ih hcs]
    rfl

/-- A piece is made of items of the text, and of none of the class. -/
theorem of_mem_splitAtClass {cs t : List α} (ht : t ∈ splitAtClass sep cs) :
    t.Sublist cs ∧ ∀ c ∈ t, sep c = false := by
  induction cs generalizing t with
  | nil =>
    rw [splitAtClass, List.mem_singleton] at ht
    rw [ht]
    exact ⟨List.Sublist.refl [], fun c hc => absurd hc List.not_mem_nil⟩
  | cons c cs ih =>
    rw [splitAtClass] at ht
    split at ht
    · rcases List.mem_cons.mp ht with rfl | ht
      · exact ⟨List.nil_sublist _, fun d hd => absurd hd List.not_mem_nil⟩
      · exact (ih ht).imp_left fun h => h.cons c
    · -- the character is put in front of the first piece and leaves the others
      rename_i hc
      obtain ⟨p, ps, hps⟩ := List.exists_cons_of_ne_nil (splitAtClass_ne_nil sep cs)
      rw [hps] at ht ih
      rcases List.mem_cons.mp ht with rfl | ht
      · obtain ⟨hsub, hsolid⟩ := ih List.mem_cons_self
        exact ⟨hsub.cons_cons c, List.forall_mem_cons.mpr ⟨eq_false_of_ne_true hc, hsolid⟩⟩
      · exact (ih (List.mem_cons_of_mem p ht)).imp_left fun h => h.cons c

end Pieces

/-! ## Runs outside a class -/

section Runs

variable {sep : Char → Bool}

@[simp] theorem runsOutside_nil : runsOutside sep [] = [] := rfl

/-- A character of the class parts the runs before it from those after. -/
theorem runsOutside_append_cons (as : List Char) {c : Char} (hc : sep c = true)
    (bs : List Char) :
    runsOutside sep (as ++ c :: bs) = runsOutside sep as ++ runsOutside sep bs := by
  rw [runsOutside, splitAtClass_append_cons as hc, List.filter_append]
  rfl

/-- Characters of the class at the end give no runs. -/
theorem runsOutside_append_of_sep (as : List Char) {bs : List Char}
    (hbs : ∀ c ∈ bs, sep c = true) : runsOutside sep (as ++ bs) = runsOutside sep as := by
  induction bs generalizing as with
  | nil => rw [List.append_nil]
  | cons b bs ih =>
    obtain ⟨hb, hbs⟩ := List.forall_mem_cons.mp hbs
    have hrest := ih [] hbs
    rw [List.nil_append] at hrest
    rw [runsOutside_append_cons as hb, hrest, runsOutside_nil, List.append_nil]

/-- Characters of the class at the start give no runs. -/
theorem runsOutside_append_of_sep_left {as : List Char} (has : ∀ c ∈ as, sep c = true)
    (bs : List Char) : runsOutside sep (as ++ bs) = runsOutside sep bs := by
  induction as with
  | nil => rfl
  | cons a as ih =>
    obtain ⟨ha, has⟩ := List.forall_mem_cons.mp has
    have hfirst := runsOutside_append_cons [] ha (as ++ bs)
    rwa [List.nil_append, runsOutside_nil, List.nil_append, ih has] at hfirst

/-- If it is not empty it is one run. -/
theorem runsOutside_of_solid {cs : List Char} (hne : cs ≠ []) (h : ∀ c ∈ cs, sep c = false) :
    runsOutside sep cs = [cs] := by
  obtain ⟨c, cs, rfl⟩ := List.exists_cons_of_ne_nil hne
  rw [runsOutside, splitAtClass_of_solid h]
  rfl

/-- Characters may be replaced where the class does not care: a text in which some were turned into
characters of the class has the runs outside both. -/
theorem runsOutside_map {wide : Char → Bool} {f : Char → Char} (hf : ∀ c, sep (f c) = wide c)
    (hkeep : ∀ c, wide c = false → f c = c) (cs : List Char) :
    runsOutside sep (cs.map f) = runsOutside wide cs := by
  have hsplit : splitAtClass sep (cs.map f) = splitAtClass wide cs := by
    induction cs with
    | nil => rfl
    | cons c cs ih =>
      rw [List.map_cons, splitAtClass, splitAtClass, hf, ih]
      split
      · rfl
      · rename_i hc
        rw [hkeep c (eq_false_of_ne_true hc)]
  rw [runsOutside, runsOutside, hsplit]

/-- A run is not empty and holds no character of the class. -/
theorem of_mem_runsOutside {cs t : List Char} (ht : t ∈ runsOutside sep cs) :
    t ≠ [] ∧ ∀ c ∈ t, sep c = false := by
  obtain ⟨hsplit, hne⟩ := List.mem_filter.mp ht
  refine ⟨?_, (of_mem_splitAtClass hsplit).2⟩
  rintro rfl
  cases hne

variable (hsep : ∀ c, isBlank c = true → sep c = true)
include hsep

/-- Trimming loses no run. -/
theorem runsOutside_trim (cs : List Char) : runsOutside sep (trim cs) = runsOutside sep cs := by
  have hblank : ∀ {bs : List Char}, isBlankText bs = true → ∀ c ∈ bs, sep c = true := fun h c hc =>
    hsep c (isBlankText_iff.mp h c hc)
  obtain ⟨as, bs, has, hbs, hcs⟩ := eq_append_trim_append cs
  conv_rhs => rw [hcs, List.append_assoc, runsOutside_append_of_sep_left (hblank has),
    runsOutside_append_of_sep _ (hblank hbs)]

/-- **Cutting a text into lines loses no run.** -/
theorem flatMap_runsOutside_lines (cs : List Char) :
    (lines cs).flatMap (runsOutside sep) = runsOutside sep cs := by
  have hreturn : ∀ c ∈ ['\r'], sep c = true :=
    List.forall_mem_singleton.mpr (hsep _ isBlank_carriageReturn)
  refine lines_induction (P := fun cs ls => ls.flatMap (runsOutside sep) = runsOutside sep cs)
    ?_ ?_ ?_ cs
  · rfl
  · exact fun l _ _ => List.flatMap_singleton _ l
  · intro l l' cs hl' ih
    rw [List.flatMap_cons, ih, runsOutside_append_cons l (hsep _ isBlank_newline)]
    rcases hl' with rfl | rfl
    · rfl
    · rw [runsOutside_append_of_sep l' hreturn]

end Runs

/-! ## White space is not alphanumeric -/

/-- The code points of white space. -/
def blankCodes : List Nat :=
  List.range' 9 5 ++ [32, 133, 160, 5760] ++ List.range' 8192 11 ++ [8232, 8233, 8239, 8287, 12288]

theorem toNat_mem_blankCodes {c : Char} (h : isBlank c = true) : c.toNat ∈ blankCodes := by
  simp only [isBlank, Bool.or_eq_true, Bool.and_eq_true, decide_eq_true_eq, beq_iff_eq] at h
  simp only [blankCodes, List.mem_append, List.mem_range'_1, List.mem_cons, List.not_mem_nil]
  omega

theorem isAlphanumeric_of_isBlank {c : Char} (h : isBlank c = true) :
    isAlphanumeric c = false := by
  have hcodes : ∀ n ∈ blankCodes, isAlphanumeric (Char.ofNat n) = false := by decide +kernel
  rw [← Char.ofNat_toNat c]
  exact hcodes c.toNat (toNat_mem_blankCodes h)

/-! ## Tokens -/

/-- The runs that tokens are made of. -/
def alphanumericRuns (cs : List Char) : List (List Char) :=
  runsOutside (fun c => !isAlphanumeric c) cs

theorem not_isAlphanumeric_of_isBlank (c : Char) (h : isBlank c = true) :
    (!isAlphanumeric c) = true := by
  rw [isAlphanumeric_of_isBlank h]
  rfl

/-- A run taken for itself has one token. -/
theorem tokens_run {cs t : List Char} (ht : t ∈ alphanumericRuns cs) : tokens t = [lowerText t] := by
  obtain ⟨hne, hsolid⟩ := of_mem_runsOutside ht
  rw [tokens, runsOutside_of_solid hne hsolid]
  rfl

/-- The tokens of a text are the runs of each of its lines, in lower case. -/
theorem mem_tokens_of_mem_lines {cs l m t : List Char} (hm : m ∈ lines cs)
    (htrim : trim m = trim l) (ht : t ∈ alphanumericRuns l) : lowerText t ∈ tokens cs := by
  refine List.mem_map_of_mem ?_
  rw [← flatMap_runsOutside_lines not_isAlphanumeric_of_isBlank]
  refine List.mem_flatMap.mpr ⟨m, hm, ?_⟩
  rw [← runsOutside_trim not_isAlphanumeric_of_isBlank m, htrim,
    runsOutside_trim not_isAlphanumeric_of_isBlank]
  exact ht

end MarkdownIndex.Text
