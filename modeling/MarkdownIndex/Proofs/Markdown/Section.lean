import MarkdownIndex.Markdown.Section
import MarkdownIndex.Proofs.Markdown.Fence

/-!
# Sections: every line stands under the header that governs it

A header governs the lines from its own one to the next header, and a line inside a fence is no
header. That is said here of positions in a text (`governing`), without sections; the sections that
a text is cut into are then shown to hold every line once, in order, under that header.

* `header?_eq_some_iff` — what a header line looks like.
* `governing`, `governed` — the header of the line at a position; all lines with their headers.
* `ascribe` — the same read line by line, in a fence state and under a header.
* `flatMap_sections` — the lines of the sections with their headers are the governed lines.
* `sealed_sections` — no fence reaches across sections.
-/

namespace MarkdownIndex.Markdown

open Text

/-! ## Header lines -/

theorem eq_replicate_append_drop (m : Char) (cs : List Char) :
    cs = List.replicate (runLength m cs) m ++ cs.drop (runLength m cs) := by
  induction cs with
  | nil => rfl
  | cons c cs ih =>
    rw [runLength_cons]
    split
    · rename_i hc
      rw [List.replicate_succ, List.cons_append, List.drop_succ_cons, ← ih, hc]
    · rfl

theorem runLength_replicate_append (m : Char) (n : Nat) {rest : List Char}
    (h : ∀ c ∈ rest.head?, c ≠ m) : runLength m (List.replicate n m ++ rest) = n := by
  induction n with
  | zero =>
    rcases rest with _ | ⟨c, rest⟩
    · rfl
    · rw [List.replicate_zero, List.nil_append, runLength_cons, if_neg (h c rfl)]
  | succ n ih => rw [List.replicate_succ, List.cons_append, runLength_cons, if_pos rfl, ih]

/-- **A header line is a run of one to six number signs,** and after it comes nothing, or a space or
tab and then the text. -/
theorem header?_eq_some_iff {l : Line} {h : Header} :
    header? l = some h ↔ ∃ rest, l = List.replicate h.level '#' ++ rest ∧
      (1 ≤ h.level ∧ h.level ≤ 6) ∧ (∀ c ∈ rest.head?, c = ' ' ∨ c = '\t') ∧
        h.text = trim rest := by
  constructor
  · intro hl
    have hrun := eq_replicate_append_drop '#' l
    rw [header?] at hl
    split at hl
    · rename_i hlevel
      split at hl
      · rename_i hrest
        rw [← Option.some.inj hl]
        exact ⟨[], hrest ▸ hrun, hlevel, (fun c hc => nomatch hc), rfl⟩
      · rename_i c cs hrest
        split at hl
        · rename_i hc
          rw [← Option.some.inj hl]
          refine ⟨l.drop (runLength '#' l), hrun, hlevel, ?_, rfl⟩
          rw [hrest]
          intro d hd
          rwa [← Option.some.inj hd]
        · cases hl
    · cases hl
  · rintro ⟨rest, rfl, hlevel, hhead, htext⟩
    obtain ⟨level, text⟩ := h
    have hother : ∀ c ∈ rest.head?, c ≠ '#' := by
      intro c hc
      rcases hhead c hc with rfl | rfl
      · decide
      · decide
    rw [header?, runLength_replicate_append '#' level hother, if_pos hlevel,
      List.drop_left' List.length_replicate]
    obtain rfl : text = trim rest := htext
    rcases rest with _ | ⟨c, rest⟩
    · rfl
    · exact if_pos (hhead c rfl)

/-- A header line starts with a number sign. -/
theorem eq_cons_of_header? {l : Line} {h : Header} (hl : header? l = some h) :
    ∃ cs, l = '#' :: cs := by
  obtain ⟨rest, rfl, hlevel, -, -⟩ := header?_eq_some_iff.mp hl
  obtain ⟨n, hn⟩ := Nat.exists_eq_succ_of_ne_zero (Nat.ne_of_gt hlevel.1)
  exact ⟨List.replicate n '#' ++ rest, by rw [hn]; rfl⟩

/-! ## The header that governs a line -/

/-- The header that the line at a position is; none inside a fence. -/
def headerAt? (ls : List Line) (i : Nat) : Option Header :=
  ls[i]?.bind (opens? (FenceState.after none (ls.take i)))

/-- The last header before a position. -/
def headerBefore (ls : List Line) (n : Nat) : Header :=
  ((List.range n).reverse.findSome? (headerAt? ls)).getD .preamble

/-- The header that governs the line at a position: the last one at or before it. -/
def governing (ls : List Line) (i : Nat) : Header := headerBefore ls (i + 1)

/-- Lines with the headers that govern them. -/
def governed (ls : List Line) : List (Line × Header) :=
  ls.zipIdx.map fun (l, i) => (l, governing ls i)

theorem headerBefore_succ (ls : List Line) (n : Nat) :
    headerBefore ls (n + 1) = (headerAt? ls n).getD (headerBefore ls n) := by
  rw [headerBefore, List.range_succ, List.reverse_append, List.reverse_singleton,
    List.singleton_append, List.findSome?_cons]
  rcases headerAt? ls n with _ | h
  · rfl
  · rfl

theorem headerAt?_append_cons (as : List Line) (l : Line) (bs : List Line) :
    headerAt? (as ++ l :: bs) as.length = opens? (FenceState.after none as) l := by
  rw [headerAt?, List.getElem?_append_right (Nat.le_refl _), Nat.sub_self,
    List.take_left' rfl]
  rfl

/-! ## Reading line by line -/

/-- Lines read in a fence state under a header, each with the header that governs it. -/
def ascribe (s : FenceState) (h : Header) : List Line → List (Line × Header)
  | [] => []
  | l :: ls => (l, (opens? s l).getD h) :: ascribe (s.next l) ((opens? s l).getD h) ls

theorem map_fst_ascribe (s : FenceState) (h : Header) (ls : List Line) :
    (ascribe s h ls).map Prod.fst = ls := by
  induction ls generalizing s h with
  | nil => rfl
  | cons l ls ih => rw [ascribe, List.map_cons, ih]

/-- The induction is on what is still to be read; what has been read fixes state and header. -/
theorem map_governing_eq_ascribe (as bs : List Line) :
    ((bs.zipIdx as.length).map fun (l, i) => (l, governing (as ++ bs) i)) =
      ascribe (FenceState.after none as) (headerBefore (as ++ bs) as.length) bs := by
  induction bs generalizing as with
  | nil => rfl
  | cons l bs ih =>
    have hnext : headerBefore (as ++ l :: bs) (as.length + 1) =
        (opens? (FenceState.after none as) l).getD (headerBefore (as ++ l :: bs) as.length) := by
      rw [headerBefore_succ, headerAt?_append_cons]
    have hrest := ih (as ++ [l])
    rw [← List.append_cons, List.length_append, List.length_singleton, hnext,
      FenceState.after_append] at hrest
    rw [List.zipIdx_cons, List.map_cons, hrest, ascribe]
    exact congrArg (fun h => (l, h) :: _) hnext

theorem governed_eq_ascribe (ls : List Line) : governed ls = ascribe none .preamble ls :=
  map_governing_eq_ascribe [] ls

/-! ## Cutting at headers -/

/-- Only outside a fence does a line open a section. -/
theorem of_opens? {s : FenceState} {l : Line} {h : Header} (hl : opens? s l = some h) :
    s = none ∧ header? l = some h := by
  cases s with
  | some f => cases hl
  | none => exact ⟨rfl, hl⟩

/-- A header line leaves no fence open. -/
theorem next_of_opens? {s : FenceState} {l : Line} {h : Header} (hl : opens? s l = some h) :
    s.next l = none := by
  obtain ⟨rfl, hh⟩ := of_opens? hl
  obtain ⟨cs, rfl⟩ := eq_cons_of_header? hh
  rfl

/-- The lines of a section, each with its header. -/
def Section.ascribed (t : Section) : List (Line × Header) :=
  t.lines.map fun l => (l, t.header)

/-- What is cut at headers holds the lines in order, each with the header that governs it. -/
theorem cut_eq_ascribe (s : FenceState) (h : Header) (ls : List Line) :
    (cut s ls).1.map (fun l => (l, h)) ++ (cut s ls).2.flatMap Section.ascribed =
      ascribe s h ls := by
  induction ls generalizing s h with
  | nil => rfl
  | cons l ls ih =>
    -- a header line ends what was read so far, and the lines after it are its own
    rcases ho : opens? s l with _ | h'
    · simp only [cut, ho, ascribe, Option.getD_none, List.map_cons, List.cons_append, ih]
    · simp only [cut, ho, ascribe, Option.getD_some, List.map_nil, List.nil_append,
        List.flatMap_cons, Section.ascribed, List.map_cons, List.cons_append,
        next_of_opens? ho]
      rw [← ih none h']

/-- The sections of a text are its preamble, if there is one, and what was cut after it. -/
theorem flatMap_sections_eq {α : Type} (f : Section → List α) (hf : f ⟨.preamble, []⟩ = [])
    (ls : List Line) :
    (sections ls).flatMap f = f ⟨.preamble, (cut none ls).1⟩ ++ (cut none ls).2.flatMap f := by
  rcases hcut : cut none ls with ⟨body, later⟩
  rw [sections, hcut]
  rcases body with _ | ⟨l, body⟩
  · rw [hf]
    rfl
  · rfl

/-- **The sections of a text hold its lines in order, each under the header that governs it.** -/
theorem flatMap_sections (ls : List Line) :
    (sections ls).flatMap Section.ascribed = governed ls := by
  rw [governed_eq_ascribe, ← cut_eq_ascribe none .preamble ls,
    flatMap_sections_eq Section.ascribed rfl]
  rfl

theorem flatten_map_lines_sections (ls : List Line) :
    ((sections ls).map Section.lines).flatten = ls := by
  have hlines := congrArg (List.map Prod.fst) (flatMap_sections ls)
  rw [governed_eq_ascribe, map_fst_ascribe, List.map_flatMap] at hlines
  rw [← List.flatMap_def]
  conv_rhs => rw [← hlines]
  refine congrArg (fun f => (sections ls).flatMap f) (funext fun t => ?_)
  rw [Section.ascribed, List.map_map]
  exact (List.map_id t.lines).symm

theorem mem_of_mem_sections {ls : List Line} {t : Section} (ht : t ∈ sections ls) :
    ∀ l ∈ t.lines, l ∈ ls := by
  intro l hl
  rw [← flatten_map_lines_sections ls]
  exact List.mem_flatten_of_mem (List.mem_map_of_mem ht) hl

/-! ## Sections and fences -/

theorem sealed_cut (s : FenceState) (ls : List Line) :
    FenceState.Sealed (s.after ls) s ((cut s ls).1 :: (cut s ls).2.map Section.lines) := by
  induction ls generalizing s with
  | nil => rfl
  | cons l ls ih =>
    rcases ho : opens? s l with _ | h
    · simp only [cut, ho]
      exact (ih (s.next l)).cons_line
    · obtain ⟨hs, -⟩ := of_opens? ho
      have hnext := next_of_opens? ho
      simp only [cut, ho, FenceState.after_cons, hnext]
      rw [hs] at hnext
      exact FenceState.sealed_cons hs (FenceState.Sealed.cons_line (hnext.symm ▸ ih none))

/-- **No fence reaches across sections.** -/
theorem sealed_sections (ls : List Line) :
    FenceState.Sealed (FenceState.after none ls) none ((sections ls).map Section.lines) := by
  have hcut := sealed_cut none ls
  rcases hr : cut none ls with ⟨body, later⟩
  rw [hr] at hcut
  rw [sections, hr]
  rcases body with _ | ⟨l, body⟩
  · exact hcut.of_nil_cons
  · exact hcut

end MarkdownIndex.Markdown
