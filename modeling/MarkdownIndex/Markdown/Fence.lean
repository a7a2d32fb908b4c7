import MarkdownIndex.Text.Blank

/-!
# Code fences: the state that a line is read in

A **fence** is a run of at least three back quotes or tildes at the start of a line. It opens a
code block, which only a line with nothing but the same character, at least as often, closes.

* `Fence.openedBy?`, `Fence.closedBy` — what a single line does.
* `FenceState` — no fence, or the fence that is open; `next` reads one line, `after` reads many.
* `isDelimiter` — the line opens or closes a fence in the given state.
-/

namespace MarkdownIndex.Markdown

open Text

/-! ## Fences -/

/-- The character of the commoner kind of fence. -/
def backQuote : Char := '\x60'

/-- An open code fence. -/
structure Fence where
  /-- the character of the run that opened the fence -/
  marker : Char
  /-- the length of that run, at least three -/
  run : Nat
deriving DecidableEq, Repr

/-- The length of the run of `m` at the start of a text. -/
def runLength (m : Char) (cs : List Char) : Nat :=
  (cs.takeWhile (· == m)).length

/-- The fence that a line opens when none is open. What follows the run is free. -/
def Fence.openedBy? (line : Line) : Option Fence :=
  match trimStart line with
  | [] => none
  | m :: cs =>
    if (m = backQuote ∨ m = '~') ∧ 3 ≤ runLength m (m :: cs) then some ⟨m, runLength m (m :: cs)⟩
    else none

/-- The line closes the fence: its trimmed text is the marker alone, repeated often enough. -/
def Fence.closedBy (f : Fence) (line : Line) : Bool :=
  let t := trim line
  f.run ≤ runLength f.marker t && runLength f.marker t == t.length

/-! ## The state between lines -/

/-- No fence, or the fence that is open. -/
abbrev FenceState := Option Fence

namespace FenceState

/-- The line opens or closes a fence. -/
def isDelimiter (s : FenceState) (line : Line) : Bool :=
  match s with
  | some f => f.closedBy line
  | none => (Fence.openedBy? line).isSome

/-- The state after a line. -/
def next (s : FenceState) (line : Line) : FenceState :=
  match s with
  | some f => if f.closedBy line then none else some f
  | none => Fence.openedBy? line

/-- The state after several lines. -/
def after (s : FenceState) (ls : List Line) : FenceState :=
  ls.foldl next s

/-- The number of lines up to the last delimiter, that one included; zero when there is none. -/
def delimitedLength (s : FenceState) : List Line → Nat
  | [] => 0
  | l :: ls =>
    match delimitedLength (s.next l) ls with
    | 0 => if s.isDelimiter l then 1 else 0
    | n + 1 => n + 2

end FenceState

end MarkdownIndex.Markdown
