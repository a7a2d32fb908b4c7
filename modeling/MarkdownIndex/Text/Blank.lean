/-!
# White space: trimming, lines and words

Texts are handled as lists of characters, so that every cut is structural recursion.

* `isBlank` — the white space characters, the twenty-five code points of the Unicode property
  `White_Space` (not only the ASCII ones).
* `trimStart`, `trimEnd`, `trim` — a text without the white space at its ends.
* `lines` — a text cut at line feeds; a carriage return directly before a line feed belongs to the
  cut, and a final line feed opens no further line.
* `words` — the maximal runs of characters that are not white space.
* `joinLines`, `joinWords` — pieces put together again with one separator between neighbours.
-/

namespace MarkdownIndex.Text

/-! ## White space -/

/-- White space in the sense of Unicode. -/
def isBlank (c : Char) : Bool :=
  let n := c.toNat
  (9 ≤ n && n ≤ 13) || n == 32 || n == 133 || n == 160 || n == 5760 || (8192 ≤ n && n ≤ 8202) ||
    n == 8232 || n == 8233 || n == 8239 || n == 8287 || n == 12288

/-- A text without its leading white space. -/
def trimStart (cs : List Char) : List Char :=
  cs.dropWhile isBlank

/-- A text without its trailing white space. -/
def trimEnd (cs : List Char) : List Char :=
  (cs.reverse.dropWhile isBlank).reverse

/-- A text without the white space at both ends. -/
def trim (cs : List Char) : List Char :=
  trimEnd (trimStart cs)

/-- A text that holds nothing but white space. -/
def isBlankText (cs : List Char) : Bool :=
  cs.all isBlank

/-! ## Lines -/

/-- One line of a text, without its line end. -/
abbrev Line := List Char

/-- Put a character in front of the first line; it opens a line when there is none. -/
def consLine (c : α) : List (List α) → List (List α)
  | [] => [[c]]
  | l :: ls => (c :: l) :: ls

/-- The lines of a text. -/
def lines : List Char → List Line
  | [] => []
  | '\n' :: cs => [] :: lines cs
  | '\r' :: '\n' :: cs => [] :: lines cs
  | c :: cs => consLine c (lines cs)

/-- Pieces joined with a separator between neighbours. -/
def joinWith (sep : List Char) : List (List Char) → List Char
  | [] => []
  | [p] => p
  | p :: q :: ps => p ++ sep ++ joinWith sep (q :: ps)

/-- Lines joined with line feeds, none at the end. -/
def joinLines (ls : List Line) : List Char :=
  joinWith ['\n'] ls

/-! ## Words -/

/-- The pieces of a text, or of a list of bytes, between items of a class, empty pieces included. -/
def splitAtClass (sep : α → Bool) : List α → List (List α)
  | [] => [[]]
  | c :: cs => if sep c then [] :: splitAtClass sep cs else consLine c (splitAtClass sep cs)

/-- The maximal runs of characters outside a class. -/
def runsOutside (sep : Char → Bool) (cs : List Char) : List (List Char) :=
  (splitAtClass sep cs).filter (!·.isEmpty)

/-- The words of a text: its maximal runs without white space. -/
def words (cs : List Char) : List (List Char) :=
  runsOutside isBlank cs

/-- Words joined with single spaces. -/
def joinWords (ws : List (List Char)) : List Char :=
  joinWith [' '] ws

end MarkdownIndex.Text
