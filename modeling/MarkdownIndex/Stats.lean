import MarkdownIndex.Decimal.Binary
import MarkdownIndex.Decimal.Layout
import MarkdownIndex.Work

/-!
# Statistics: what is indexed, in a few lines

* `Instant.relative` — how long ago something was: in the largest unit that fits, and as a date when
  it was more than thirty days ago or is yet to come.
* `StoreStats.summary` — the counts of a store as text.
-/

namespace MarkdownIndex

/-- A count with its unit. -/
def counted (n : Int) (unit : String) : String :=
  toString n ++ " " ++ unit ++ (if n = 1 then "" else "s") ++ " ago"

/-- How long before `now` an instant was. Seconds that are not complete do not count. -/
def Instant.relative (t now : Instant) : String :=
  let elapsed := (now - t).tdiv Instant.second
  if elapsed < 0 then t.minuteText
  else if elapsed < 60 then "just now"
  else if elapsed < 3600 then counted (elapsed / 60) "min"
  else if elapsed < 86400 then counted (elapsed / 3600) "hour"
  else if elapsed < 86400 * 30 then counted (elapsed / 86400) "day"
  else t.minuteText

/-- A float with some places. -/
def placesText (places : Nat) (x : Float) : String :=
  Decimal.fixed places (Decimal.double.read x.toBits.toNat)

/-- The counts of a store at an instant, as text. -/
def StoreStats.summary (s : StoreStats) (now : Instant) : String :=
  let words := match s.averageWords with
    | some w => placesText 1 w
    | none => "-"
  let update := match s.lastUpdate with
    | some t => t.relative now
    | none => "never"
  "Memory Store Stats\n" ++
  "==================\n\n" ++
  "  Documents:    " ++ toString s.documents ++ "\n" ++
  "  Chunks:       " ++ toString s.chunks ++ "\n" ++
  "  Avg words:    " ++ words ++ "\n" ++
  "  Last update:  " ++ update ++ "\n"

/-- Ask a store for its counts and tell them. -/
def statsSummary : Work (Except Failure String) := do
  match ← Work.store .stats with
  | .error e => return .error e
  | .ok stats => return .ok (stats.summary (← Work.now))

end MarkdownIndex
