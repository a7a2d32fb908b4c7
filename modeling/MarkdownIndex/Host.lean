import MarkdownIndex.Program
import MarkdownIndex.Scan
import MarkdownIndex.Time

/-!
# The host: files, the clock, and the wish to stop

What the index asks of the machine it runs on. Files may change between any two requests, and a
program that runs on may be told to stop.

* `Host.Call`, `Host.Reply` — the requests and their answers.
* `Host.answer` — the answers of a disk at an instant.
-/

namespace MarkdownIndex

namespace Host

open Files

/-- A request to the machine. -/
inductive Call where
  /-- the bytes of a file -/
  | read (path : Path)
  /-- the time of the last change of a file -/
  | modified (path : Path)
  /-- whether a path leads anywhere -/
  | leads (path : Path)
  /-- the files that count -/
  | scan (scanner : Scanner)
  /-- the files that count with the times of their last changes -/
  | snapshot (scanner : Scanner)
  /-- the time -/
  | now
  /-- let time pass -/
  | pause (milliseconds : Nat)
  /-- let time pass, but stop when told to; the answer is whether that was so -/
  | rest (milliseconds : Nat)
  /-- whether the program has been told to stop -/
  | stopping

/-- The answer to a request. -/
def Reply : Call → Type
  | .read _ => Except FileError (List UInt8)
  | .modified _ => Option Instant
  | .leads _ => Bool
  | .scan _ => Except ScanError (List Path)
  | .snapshot _ => Except ScanError Snapshot
  | .now => Instant
  | .pause _ => Unit
  | .rest _ => Bool
  | .stopping => Bool

/-- The machine as an interface. -/
def interface : Interface := ⟨Call, Reply⟩

/-- What a disk answers at an instant, as long as nobody says stop. -/
def answer (disk : Disk) (now : Instant) : (c : Call) → Reply c
  | .read path => Files.read disk path
  | .modified path => Files.modified? disk path
  | .leads path => Files.exists? disk path
  | .scan scanner => scanner.scan disk
  | .snapshot scanner => scanner.snapshot disk
  | .now => now
  | .pause _ => ()
  | .rest _ => false
  | .stopping => false

end Host

end MarkdownIndex
