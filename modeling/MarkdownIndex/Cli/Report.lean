import MarkdownIndex.Ingest
import MarkdownIndex.Search
import MarkdownIndex.Stats

/-!
# Reports: what commands print

* `preview` — the beginning of a text on one line.
* `hitsText` — the hits of a search.
* `reportText`, `outcomeText` — the outcome of a pass, and of a single file.
-/

namespace MarkdownIndex.Cli

open Text

/-- The beginning of a text on one line, with dots if there is more. -/
def preview (content : String) (most : Nat) : String :=
  let flat := joinWords (words content.toList)
  if flat.length ≤ most then String.ofList flat
  else String.ofList (trimEnd (flat.take most)) ++ "..."

/-- A hit with its number. -/
def hitText (number : Nat) (h : SearchHit) : String :=
  let section_ := if h.metadata.header.isEmpty then "" else
    "    section: " ++ h.metadata.header ++ "\n"
  toString number ++ ". [" ++ placesText 2 h.similarity ++ "] " ++ h.title ++ "\n" ++
  "    file: " ++ h.path ++ "\n" ++ section_ ++
  "    " ++ preview h.content 160 ++ "\n\n"

/-- Hits with their numbers, from one on. -/
def numbered (first : Nat) : List SearchHit → String
  | [] => ""
  | h :: hs => hitText first h ++ numbered (first + 1) hs

/-- The hits of a search. -/
def hitsText (query : String) (mode : SearchMode) (hits : List SearchHit) : String :=
  let about := "\"" ++ query ++ "\" (" ++ mode.name ++ ")"
  if hits.isEmpty then "No results for " ++ about ++ "\n"
  else
    "Found " ++ toString hits.length ++ " results for " ++ about ++ ":\n\n" ++ numbered 1 hits

/-- The outcome of a single file. -/
def outcomeText (path : String) : FileOutcome → String
  | .processed n => "Processed " ++ path ++ " (" ++ toString n ++ " chunks)\n"
  | .skipped => "Unchanged: " ++ path ++ "\n"

/-- The outcome of a pass. -/
def reportText (r : IngestReport) : String :=
  "Processing complete\n" ++
  "  processed: " ++ toString r.processed ++ "\n" ++
  "  skipped:   " ++ toString r.skipped ++ "\n" ++
  "  failed:    " ++ toString r.failed ++ "\n" ++
  "  chunks:    " ++ toString r.chunksWritten ++ "\n"

/-- What is printed about a failure: what went wrong, and why. -/
def failureText (f : Failure) : String :=
  let numberedCauses := f.causes.zipIdx.map fun (c, i) => "    " ++ toString i ++ ": " ++ c ++ "\n"
  let causes := match f.causes with
    | [] => ""
    | [c] => "\nCaused by:\n    " ++ c ++ "\n"
    | _ => "\nCaused by:\n" ++ String.join numberedCauses
  "Error: " ++ f.message ++ "\n" ++ causes

end MarkdownIndex.Cli
