import MarkdownIndex.Search.Hit

/-!
# Ranking: best score first

* `ScoredChunk.precedes` — the greater score, and of equal scores the lesser key. Scores that cannot
  be compared count as equal.
* `rank` — chunks sorted by insertion: each one moves ahead of those it precedes, from the end on.
* `top` — the first chunks of a ranking; a negative limit is none.
-/

namespace MarkdownIndex

/-- The first chunk goes before the second. -/
def ScoredChunk.precedes (a b : ScoredChunk) : Bool :=
  if b.score < a.score then true
  else if a.score < b.score then false
  else a.chunkId < b.chunkId

namespace Search

/-- Put a chunk into a ranking that is given last chunk first. -/
def insertFromEnd (c : ScoredChunk) : List ScoredChunk → List ScoredChunk
  | [] => [c]
  | d :: ds => if c.precedes d then d :: insertFromEnd c ds else c :: d :: ds

/-- The chunks in the order of their ranking. -/
def rank (cs : List ScoredChunk) : List ScoredChunk :=
  (cs.foldl (fun ranked c => insertFromEnd c ranked) []).reverse

/-- The first chunks of a ranking. -/
def top (limit : Int) (cs : List ScoredChunk) : List ScoredChunk :=
  (rank cs).take limit.toNat

end Search

end MarkdownIndex
