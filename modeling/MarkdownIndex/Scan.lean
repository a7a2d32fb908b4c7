import MarkdownIndex.Config
import MarkdownIndex.Files.Walk
import MarkdownIndex.Glob.Matching

/-!
# Scans: the files that count as documents

A scan lists the files below the root whose path relative to the root one of the include patterns
has and none of the exclude patterns. Files below a directory named `.git`, `target` or
`node_modules` are always excluded.

* `Scanner`, `Scanner.ofConfig` — the root and the compiled patterns.
* `ScanError` — why there is no list.
* `Scanner.scan` — the files, in the order of their paths.
* `Snapshot`, `Scanner.snapshot` — the files with the times of their last changes.
* `Snapshot.changes` — the files that are new or changed from one snapshot to the next. A file that
  is gone is no change.
-/

namespace MarkdownIndex

open Files Text

/-! ## Scanners -/

/-- What is scanned for. -/
structure Scanner where
  /-- the directory the documents are in -/
  root : Path
  /-- patterns of files that count -/
  include_ : Globs
  /-- patterns of files that do not -/
  exclude : Globs
  /-- symbolic links are followed -/
  followLinks : Bool

/-- Patterns of files that never count. -/
def alwaysExcluded : List String := ["**/.git/**", "**/target/**", "**/node_modules/**"]

/-- Why there is no list of files. -/
inductive ScanError where
  /-- the root leads nowhere -/
  | noRoot (root : Path)
  /-- the walk failed -/
  | walk (e : WalkError)
deriving DecidableEq, Repr

/-- The wording of an error. -/
def ScanError.message : ScanError → String
  | .noRoot root => "Docs root does not exist: " ++ Path.text root
  | .walk _ => "directory walk failed"

namespace Scanner

/-- The scanner of a configuration. -/
def ofConfig (c : Config.Docs) : Except Glob.GlobError Scanner := do
  let included ← Globs.compile c.includeGlobs
  let excluded ← Globs.compile (alwaysExcluded ++ c.excludeGlobs)
  return ⟨Path.ofText c.root, included, excluded, c.followSymlinks⟩

/-- A path counts by the text that it has relative to the root. -/
def admits (s : Scanner) (relative : String) : Bool :=
  !s.exclude.has relative && s.include_.has relative

/-- The path below the root that names lead to. -/
def pathOf (s : Scanner) (names : List FileName) : Path :=
  names.foldl Path.join s.root

/-- The text of the path relative to the root that names lead to. -/
def relative (names : List FileName) : String :=
  Path.text ([Path.slash].intercalate names)

/-- The files that count, in the order of their paths. -/
def scan (s : Scanner) (disk : Disk) : Except ScanError (List Path) :=
  if exists? disk s.root then
    match walk disk s.followLinks s.root with
    | .error e => .error (.walk e)
    | .ok found =>
      .ok (((found.filter fun names => s.admits (relative names)).map s.pathOf).mergeSort Path.le)
  else .error (.noRoot s.root)

end Scanner

/-! ## Snapshots -/

/-- Files with the times of their last changes, in nanoseconds since 1970. A file is found under
any spelling of its path. -/
abbrev Snapshot := List (Path × Int)

namespace Snapshot

/-- The time of a file. -/
def time? (s : Snapshot) (path : Path) : Option Int :=
  (s.find? fun (p, _) => Path.same p path).map (·.2)

/-- Set the time of a file. A file that is there keeps its spelling. -/
def insert (path : Path) (time : Int) : Snapshot → Snapshot
  | [] => [(path, time)]
  | (p, t) :: s => if Path.same p path then (p, time) :: s else (p, t) :: insert path time s

/-- The kind of a change. -/
inductive ChangeKind where
  /-- the file was not there -/
  | created
  /-- the file had another time -/
  | modified
deriving DecidableEq, Repr

/-- A file that is new or changed. -/
structure Change where
  /-- its path -/
  path : Path
  /-- what happened to it -/
  kind : ChangeKind
deriving DecidableEq, Repr

/-- The change of a file since a snapshot, if there is one. -/
def change? (old : Snapshot) (path : Path) (time : Int) : Option Change :=
  match old.time? path with
  | none => some ⟨path, .created⟩
  | some t => if t = time then none else some ⟨path, .modified⟩

/-- The changes from one snapshot to the next, in the order of their paths. -/
def changes (old new : Snapshot) : List Change :=
  (new.filterMap fun (p, t) => old.change? p t).mergeSort fun a b => Path.le a.path b.path

end Snapshot

/-- The name of a kind of change. -/
def Snapshot.ChangeKind.name : Snapshot.ChangeKind → String
  | .created => "created"
  | .modified => "modified"

/-- The files that count with the times of their last changes. A file that is gone by the time it
is asked for is left out. -/
def Scanner.snapshot (s : Scanner) (disk : Disk) : Except ScanError Snapshot := do
  let paths ← s.scan disk
  return paths.filterMap fun p => (modified? disk p).map (p, ·)

end MarkdownIndex
