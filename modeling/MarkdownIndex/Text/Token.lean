import MarkdownIndex.Text.Blank
import MarkdownIndex.Text.Case

/-!
# Tokens: the words that a search compares

A token is a maximal run of alphanumeric characters, in lower case.
-/

namespace MarkdownIndex.Text

/-- The tokens of a text, in order. -/
def tokens (cs : List Char) : List (List Char) :=
  (runsOutside (fun c => !isAlphanumeric c) cs).map lowerText

end MarkdownIndex.Text
