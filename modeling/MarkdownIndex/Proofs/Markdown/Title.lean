import MarkdownIndex.Markdown.Title
import MarkdownIndex.Proofs.Markdown.Section
import MarkdownIndex.Proofs.Text.Token

/-!
# Titles: the title of a document is a header of it

Titles and sections are read by two scans of the same lines. The scan for a title asks for `#` and a
space and knows no fences; the scan for sections takes a tab as well and passes over what is fenced.
Where the first line that gives a title is not fenced, the two agree:

* `titleLine?_of_header?`, `titleLine?_of_not_header?` — every line that gives a title is a header
  line of level one, and of the header lines those with a text and a space give their text.
* `Section.entitles` — the section opens with such a line; `clear` — no fence is open at the first.
* `findSome?_titleLine?` — what the scan for a title finds is the text of the first such section.
* `words_spaced` — the words of a file name are its runs between separators.
* `title_eq_of_clear` — the title of a document, from its sections and its file name.
* `titleOfSections`, `title_ne_titleOfSections` — the title that all sections would give differs.
-/

namespace MarkdownIndex.Markdown

open Text

/-! ## Lines that give a title -/

/-- A line that starts with `#` and a space is a header line of level one. -/
theorem header?_space (rest : List Char) : header? ('#' :: ' ' :: rest) = some ⟨1, trim rest⟩ := by
  have htrim : trim ([' '] ++ rest) = trim rest :=
    trim_append_of_blank_left (by decide) rest
  refine header?_eq_some_iff.mpr
    ⟨' ' :: rest, rfl, ⟨Nat.le_refl 1, Nat.le_add_left 1 5⟩, ?_, htrim.symm⟩
  intro c hc
  exact Or.inl (Option.some.inj hc).symm

/-- The section opens with a header of level one that has a text, and with a space after its `#`. -/
def Section.entitles (t : Section) : Bool :=
  t.header.level == 1 && !t.header.text.isEmpty && ['#', ' '].isPrefixOf (t.lines.headD [])

theorem titleLine?_space (rest : List Char) :
    titleLine? ('#' :: ' ' :: rest) = if (trim rest).isEmpty then none else some (trim rest) := rfl

theorem titleLine?_of_no_mark {l : Line} (h : ¬ ['#', ' '] <+: l) : titleLine? l = none := by
  rw [titleLine?]
  rintro rest rfl
  exact h ⟨rest, rfl⟩

/-- A header line gives its text as a title exactly if its section is one that entitles. -/
theorem titleLine?_of_header? {l : Line} {h : Header} (hl : header? l = some h)
    (body : List Line) :
    titleLine? l = if (Section.mk h (l :: body)).entitles then some h.text else none := by
  by_cases hp : ['#', ' '] <+: l
  · obtain ⟨rest, rfl⟩ := hp
    obtain rfl : Header.mk 1 (trim rest) = h := Option.some.inj ((header?_space rest).symm.trans hl)
    rw [List.cons_append, List.cons_append, List.nil_append, titleLine?_space]
    rcases hx : trim rest with _ | ⟨c, cs⟩
    · rfl
    · rfl
  · have hnot : (Section.mk h (l :: body)).entitles = false := by
      rw [Section.entitles, List.headD_cons,
        Bool.eq_false_iff.mpr (mt List.isPrefixOf_iff_prefix.mp hp), Bool.and_false]
    rw [titleLine?_of_no_mark hp, hnot]
    rfl

/-- A line that is no header line gives no title. -/
theorem titleLine?_of_not_header? {l : Line} (hl : header? l = none) : titleLine? l = none := by
  refine titleLine?_of_no_mark ?_
  rintro ⟨rest, rfl⟩
  cases (header?_space rest).symm.trans hl

/-! ## The first title -/

/-- When lines are read in a fence state, no fence is open at the first one that gives a title. -/
def clear (s : FenceState) : List Line → Bool
  | [] => true
  | l :: ls => if (titleLine? l).isSome then s.isNone else clear (s.next l) ls

/-- What cutting finds is what the scan for a title finds, as long as that one is not fenced. -/
theorem findSome?_titleLine?_cut {s : FenceState} {ls : List Line} (h : clear s ls = true) :
    ls.findSome? titleLine? = ((cut s ls).2.find? Section.entitles).map (·.header.text) := by
  induction ls generalizing s with
  | nil => rfl
  | cons l ls ih =>
    rw [clear] at h
    rcases ho : opens? s l with _ | h'
    · -- a line that gives a title would be read outside every fence, and there it opens a section
      have hl : titleLine? l = none := by
        by_contra hne
        rw [if_pos (Option.isSome_iff_ne_none.mpr hne)] at h
        obtain rfl := Option.isNone_iff_eq_none.mp h
        exact hne (titleLine?_of_not_header? ho)
      rw [hl] at h
      simp only [List.findSome?_cons, hl, cut, ho]
      exact ih h
    · obtain ⟨rfl, hh⟩ := of_opens? ho
      have hl := titleLine?_of_header? hh (cut none ls).1
      simp only [List.findSome?_cons, cut, ho, List.find?_cons]
      rcases he : (Section.mk h' (l :: (cut none ls).1)).entitles with _ | _
      · rw [he] at hl
        rw [hl, next_of_opens? ho] at h
        rw [hl]
        exact ih h
      · rw [he] at hl
        rw [hl]
        rfl

/-- **The scan for a title finds the text of the first section that entitles.** -/
theorem findSome?_titleLine? {ls : List Line} (h : clear none ls = true) :
    ls.findSome? titleLine? = ((sections ls).find? Section.entitles).map (·.header.text) := by
  rw [findSome?_titleLine?_cut h]
  rcases hcut : cut none ls with ⟨body, later⟩
  rw [sections, hcut]
  rcases body with _ | ⟨l, body⟩
  · rfl
  · rfl

/-! ## Titles made of file names -/

/-- The characters between the words of a file name. -/
def separates (c : Char) : Bool := isBlank c || c == '_' || c == '-'

/-- The words of a file name, separators taken as spaces, are its runs between separators. -/
theorem words_spaced (stem : List Char) :
    words (stem.map fun c => if c = '_' ∨ c = '-' then ' ' else c) =
      runsOutside separates stem := by
  refine runsOutside_map (fun c => ?_) (fun c hc => ?_) stem
  · by_cases h : c = '_' ∨ c = '-'
    · rw [if_pos h]
      rcases h with rfl | rfl
      · decide
      · decide
    · rw [if_neg h, separates, beq_eq_false_iff_ne.mpr (mt Or.inl h),
        beq_eq_false_iff_ne.mpr (mt Or.inr h), Bool.or_false, Bool.or_false]
  · rw [if_neg]
    rintro (rfl | rfl)
    · cases hc
    · cases hc

/-! ## The title of a document -/

/-- **The title of a document is the text of its first section that entitles,** and without such a
section the capitalised words of its file name, unless a fenced line gave a title first. -/
theorem title_eq_of_clear (content stem : String)
    (h : clear none (lines content.toList) = true) :
    title content stem = String.ofList
      ((((sections (lines content.toList)).find? Section.entitles).map (·.header.text)).getD
        (joinWords ((runsOutside separates stem.toList).map capitalize))) := by
  rw [title, findSome?_titleLine? h, titleOfStem, words_spaced]

/-- The comment in the fenced script is no header, and the title before it stands outside. -/
theorem title_eq_of_clear_guide :
    clear none (lines "#\n# Guide\n```\n# install\n```".toList) = true ∧
      title "#\n# Guide\n```\n# install\n```" "set-up" = "Guide" := by
  have hclear : clear none (lines "#\n# Guide\n```\n# install\n```".toList) = true := by
    decide +kernel
  refine ⟨hclear, ?_⟩
  rw [title_eq_of_clear "#\n# Guide\n```\n# install\n```" "set-up" hclear]
  decide +kernel

/-- The text of the first section of level one that has a text, and without one the capitalised
words of the file name. -/
def titleOfSections (content stem : String) : String :=
  String.ofList
    ((((sections (lines content.toList)).find? fun t =>
        t.header.level == 1 && !t.header.text.isEmpty).map (·.header.text)).getD
      (titleOfStem stem.toList))

/-- The title is not this for every document. A header that is written with a tab opens a section
and gives no title; a fenced line that looks like a header gives a title and opens no section. -/
theorem title_ne_titleOfSections :
    title "#\tTitle" "a" ≠ titleOfSections "#\tTitle" "a" ∧
      title "```\n# install\n```" "a" ≠ titleOfSections "```\n# install\n```" "a" := by
  constructor
  · decide +kernel
  · decide +kernel

end MarkdownIndex.Markdown
