import MarkdownIndex.Markdown.Fence

/-!
# Parts: a long section packed into groups of blocks

A section that is too long is cut between its **blocks**, the maximal groups of lines without a
blank line outside a fence; a fenced block or a table is therefore never cut. Blocks are packed
greedily, and every part after the first opens with the tail of the part before it.

* `blocks` — the blocks of a list of lines.
* `joinedLength` — the length of lines joined with line feeds.
* `overlapTail` — the lines that a part hands on: at most `n` and at most half of it, after its
  last fence delimiter, not starting with a blank line.
* `pack`, `parts` — the greedy packing. A block is added to the part in progress unless that part
  would then be longer than `max`; a block that is too long alone stays whole.
-/

namespace MarkdownIndex.Markdown

open Text

/-! ## Blocks -/

/-- Put a group of lines in front of others, unless it is empty. -/
def consBlock (b : List Line) (bs : List (List Line)) : List (List Line) :=
  if b.isEmpty then bs else b :: bs

/-- Reading lines in a fence state: the rest of the block in progress, and the blocks after it. -/
def cutBlocks (s : FenceState) : List Line → List Line × List (List Line)
  | [] => ([], [])
  | l :: ls =>
    if isBlankText l ∧ s = none then
      let (b, later) := cutBlocks none ls
      ([], consBlock b later)
    else
      let (b, later) := cutBlocks (s.next l) ls
      (l :: b, later)

/-- The blocks of a list of lines: no block is empty, and blank lines between blocks are dropped. -/
def blocks (ls : List Line) : List (List Line) :=
  let (b, later) := cutBlocks none ls
  consBlock b later

/-! ## Lengths and overlap -/

/-- The length of lines joined with line feeds. -/
def joinedLength (ls : List Line) : Nat :=
  ls.flatten.length + (ls.length - 1)

/-- The lines that a part hands on to the next one. -/
def overlapTail (n : Nat) (part : List Line) : List Line :=
  if n = 0 then []
  else
    let kept := min n (max (part.length / 2) 1)
    let start := max (part.length - kept) (FenceState.delimitedLength none part)
    (part.drop start).dropWhile isBlankText

/-- A block added to a part in progress, after an empty line when the part has lines. -/
def extend (part block : List Line) : List Line :=
  if part.isEmpty then block else part ++ [] :: block

/-! ## Packing -/

/-- Pack blocks onto the part in progress, which has at least one block. -/
def pack (max overlap : Nat) (part : List Line) : List (List Line) → List (List Line)
  | [] => [part]
  | b :: bs =>
    if joinedLength part + 2 + joinedLength b > max then
      part :: pack max overlap (extend (overlapTail overlap part) b) bs
    else
      pack max overlap (extend part b) bs

/-- The parts of a section's lines. -/
def parts (max overlap : Nat) (ls : List Line) : List (List Line) :=
  match blocks ls with
  | [] => []
  | b :: bs => pack max overlap b bs

end MarkdownIndex.Markdown
