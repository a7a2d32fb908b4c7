import MarkdownIndex.Markdown.Fence

/-!
# Sections: a document cut at its headers

A **header** is a line of one to six `#` and then the end of the line, a space or a tab. Outside
every code fence it opens a section, which runs to the next header. Lines before the first header
form a preamble with an empty header of level zero.

* `header?` — the header that a line is.
* `cut` — the lines of the section in progress and the sections after it, read in one pass.
* `sections` — the sections of a list of lines; each holds its header line.
-/

namespace MarkdownIndex.Markdown

open Text

/-! ## Headers -/

/-- The text and level that govern the lines of a section. -/
structure Header where
  /-- one to six, or zero for the lines before the first header -/
  level : Nat
  /-- the trimmed text after the run of `#` -/
  text : List Char
deriving DecidableEq, Repr

/-- The header of the lines before the first header line. -/
def Header.preamble : Header := ⟨0, []⟩

/-- The header that a line is, when read outside a fence. -/
def header? (line : Line) : Option Header :=
  let level := runLength '#' line
  let rest := line.drop level
  if 1 ≤ level ∧ level ≤ 6 then
    match rest with
    | [] => some ⟨level, []⟩
    | c :: _ => if c = ' ' ∨ c = '\t' then some ⟨level, trim rest⟩ else none
  else none

/-! ## Cutting -/

/-- A header with the lines it governs, its own line first. -/
structure Section where
  /-- the header of every line of the section -/
  header : Header
  /-- the lines, in order -/
  lines : List Line
deriving DecidableEq, Repr

/-- The header that a line opens a section with in a fence state: none while a fence is open. -/
def opens? (s : FenceState) (line : Line) : Option Header :=
  match s with
  | some _ => none
  | none => header? line

/-- Reading lines in a fence state: the lines up to the next header, and the sections from there.
A header line leaves no fence open. -/
def cut (s : FenceState) : List Line → List Line × List Section
  | [] => ([], [])
  | l :: ls =>
    match opens? s l with
    | some h =>
      let (body, later) := cut none ls
      ([], ⟨h, l :: body⟩ :: later)
    | none =>
      let (body, later) := cut (s.next l) ls
      (l :: body, later)

/-- The sections of a list of lines. The preamble counts only if it has a line. -/
def sections (ls : List Line) : List Section :=
  let (body, later) := cut none ls
  if body.isEmpty then later else ⟨.preamble, body⟩ :: later

end MarkdownIndex.Markdown
