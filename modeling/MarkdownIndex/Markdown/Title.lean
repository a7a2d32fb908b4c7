import MarkdownIndex.Text.Blank
import MarkdownIndex.Text.Case

/-!
# Titles: what a document is called

The title of a document is the text of its first line that starts with `#` and a space and has
some text after them. Code fences play no part here. A document without such a line is called
after its file: separators become spaces and every word is capitalised.

* `titleLine?` — the title that one line gives.
* `capitalize` — a word with a capital first letter and small letters after it.
* `titleOfStem`, `title` — the two rules, and the first that answers.
-/

namespace MarkdownIndex.Markdown

open Text

/-- The title that a line gives, if its text is not blank. -/
def titleLine? : Line → Option (List Char)
  | '#' :: ' ' :: rest => if (trim rest).isEmpty then none else some (trim rest)
  | _ => none

/-- A word with its first character in upper and the others in lower case, each on its own. -/
def capitalize : List Char → List Char
  | [] => []
  | c :: cs => upper c ++ cs.flatMap lower

/-- The title made of a file name without its extension. -/
def titleOfStem (stem : List Char) : List Char :=
  let spaced := stem.map fun c => if c = '_' ∨ c = '-' then ' ' else c
  joinWords ((words spaced).map capitalize)

/-- The title of a document with the given text and file stem. -/
def title (content stem : String) : String :=
  String.ofList (((lines content.toList).findSome? titleLine?).getD (titleOfStem stem.toList))

end MarkdownIndex.Markdown
