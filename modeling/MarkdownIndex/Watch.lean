import MarkdownIndex.Ingest

/-!
# Watching: ingest files as they change

A watcher looks at the files again and again, compares what it sees with the look before and hands
every new or changed file to ingestion. Files that are gone are no concern of it, and a look that
fails is passed over.

* `WatchEvent` — a change that has been handled.
* `Watcher.baseline` — the first look, which changes nothing.
* `Watcher.poll` — a further look: the files to compare the next one with, and the events.
* `Watcher.watch` — look after look, until it is told to stop.
-/

namespace MarkdownIndex

/-- A change that has been handled. -/
structure WatchEvent where
  /-- the file and what happened to it -/
  change : Snapshot.Change
  /-- how its ingestion ended; none if it failed -/
  outcome : Option FileOutcome
deriving DecidableEq, Repr

namespace Watcher

/-- The files at the start; none if they cannot be listed. -/
def baseline (g : Ingestor) : Work Snapshot := do
  return (← Work.snapshot g.scanner).toOption.getD []

/-- Ingest a file that is new or changed. -/
def handle (g : Ingestor) (c : Snapshot.Change) : Work WatchEvent := do
  return ⟨c, (← (g.processFile c.path).run).toOption⟩

/-- Ingest files that are new or changed, one after the other, until told to stop. -/
def handleAll (g : Ingestor) : List Snapshot.Change → Work (List WatchEvent)
  | [] => return []
  | c :: cs => do
    if ← Work.stopping then return []
    else
      let e ← handle g c
      return e :: (← handleAll g cs)

/-- Look at the files and ingest what is new or changed since a snapshot. -/
def poll (g : Ingestor) (known : Snapshot) : Work (Snapshot × List WatchEvent) := do
  match ← Work.snapshot g.scanner with
  | .error _ => return (known, [])
  | .ok current => return (current, ← handleAll g (known.changes current))

/-- Look at the files again and again, at most so many times, until told to stop. -/
def looks (g : Ingestor) (interval : Nat) : (most : Nat) → Snapshot → Work (List WatchEvent)
  | 0, _ => return []
  | n + 1, known => do
    if ← Work.rest interval then return []
    else
      let (known, events) ← poll g known
      return events ++ (← looks g interval n known)

/-- Watch the files from a first look on. -/
def watch (g : Ingestor) (interval most : Nat) : Work (List WatchEvent) := do
  looks g interval most (← baseline g)

/-- The name of the task that watches. -/
def taskName : String := "docs-watcher"

end Watcher

end MarkdownIndex
