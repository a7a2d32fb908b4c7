import MarkdownIndex.Files.Path

/-!
# Files: a tree of directories, files and links

The files that the index is about, as a value. A path is followed from the working directory, or
from the top of the tree if it starts with a slash; so is the target of a link, but from the
directory that the link is in.

* `Entry` — a file with its bytes and the time of its last change, a directory, or a symbolic
  link.
* `Disk` — a tree, and the working directory in it.
* `FileError` — why a path leads nowhere.
* `resolve` — the place that a path leads to, links followed.
* `read`, `modified?`, `exists?`, `isLink` — what can be asked about a path.
* `write`, `makeDirectory`, `remove`, `link` — how the files change under the index.
-/

namespace MarkdownIndex.Files

open Text

/-! ## Entries -/

/-- What a name in a directory stands for. -/
inductive Entry where
  /-- a file: its bytes, and the time of its last change in nanoseconds since 1970 -/
  | file (bytes : List UInt8) (modified : Int)
  /-- a directory -/
  | directory (entries : List (FileName × Entry))
  /-- a symbolic link -/
  | link (target : Path)
deriving Inhabited

/-- Why a path leads nowhere. -/
inductive FileError where
  /-- a name on the way is missing -/
  | notFound
  /-- a name on the way is no directory -/
  | notDirectory
  /-- the path leads to a directory, and a file is wanted -/
  | isDirectory
  /-- too many links on the way -/
  | linkLoop
  /-- a name is longer than a directory can hold -/
  | nameTooLong
  /-- a name holds the byte that ends names -/
  | nulByte
  /-- the file may not be read -/
  | denied
deriving DecidableEq, Repr

/-- The wording of an error. -/
def FileError.message : FileError → String
  | .notFound => "No such file or directory (os error 2)"
  | .notDirectory => "Not a directory (os error 20)"
  | .isDirectory => "Is a directory (os error 21)"
  | .linkLoop => "Too many levels of symbolic links (os error 40)"
  | .nameTooLong => "File name too long (os error 36)"
  | .nulByte => "file name contained an unexpected NUL byte"
  | .denied => "Permission denied (os error 13)"

/-- A place in a tree: the names that lead there from the top, through directories only. -/
abbrev Place := List FileName

/-- The entry with a name in a directory. -/
def Entry.child? (name : FileName) : Entry → Option Entry
  | .directory es => es.lookup name
  | _ => none

/-- The entry at a place. -/
def Entry.at? (top : Entry) (place : Place) : Option Entry :=
  place.foldlM (fun e name => e.child? name) top

/-- All files, and the directory that paths start from. -/
structure Disk where
  /-- the top of all files -/
  top : Entry
  /-- the working directory -/
  workplace : Place
deriving Inhabited

/-! ## Resolution -/

/-- The greatest number of links that are followed on the way to one place. -/
def maxLinks : Nat := 40

/-- The longest name, in bytes. -/
def maxNameBytes : Nat := 255

/-- Where a path starts that is followed from a place. -/
def startOf (place : Place) (p : Path) : Place :=
  if Path.isAbsolute p then [] else place

/-- Follow segments from a place. Every segment, also an empty one, has to start from a directory;
a link is followed unless it is the last segment and `keepLast` is set. Nothing lies above the
top. -/
def follow (top : Entry) (keepLast : Bool) :
    (links : Nat) → (fuel : Nat) → Place → List FileName → Except FileError Place
  | _, 0, _, _ => .error .linkLoop
  | _, _, place, [] => .ok place
  | links, fuel + 1, place, s :: rest =>
    match top.at? place with
    | some (.directory es) =>
      if s = [] ∨ s = Path.here then follow top keepLast links fuel place rest
      else if s = Path.parent then follow top keepLast links fuel place.dropLast rest
      else if maxNameBytes < s.length then .error .nameTooLong
      else match es.lookup s with
        | none => .error .notFound
        | some (.link target) =>
          if keepLast ∧ rest.isEmpty then .ok (place ++ [s])
          else match links with
            | 0 => .error .linkLoop
            | links + 1 => follow top keepLast links fuel (startOf place target)
                (Path.segments target ++ rest)
        | some _ => follow top keepLast links fuel (place ++ [s]) rest
    | some _ => .error .notDirectory
    | none => .error .notFound

/-- Steps that are enough for a path with so many segments, whatever links it meets. -/
def stepsFor (segments : Nat) : Nat := segments + 1 + maxLinks * 4096

/-- The place that a path leads to. -/
def resolveWith (disk : Disk) (keepLast : Bool) (p : Path) : Except FileError Place :=
  if p.contains 0 then .error .nulByte
  else if p = [] then .error .notFound
  else
    let segments := Path.segments p
    follow disk.top keepLast maxLinks (stepsFor segments.length) (startOf disk.workplace p) segments

/-- The place that a path leads to, all links followed. -/
def resolve (disk : Disk) (p : Path) : Except FileError Place :=
  resolveWith disk false p

/-! ## Questions -/

/-- The bytes of the file that a path leads to. -/
def read (disk : Disk) (p : Path) : Except FileError (List UInt8) :=
  match resolve disk p with
  | .error e => .error e
  | .ok place => match disk.top.at? place with
    | some (.file bytes _) => .ok bytes
    | some (.directory _) => .error .isDirectory
    | _ => .error .notFound

/-- The time of the last change of the file that a path leads to. -/
def modified? (disk : Disk) (p : Path) : Option Int :=
  match resolve disk p with
  | .error _ => none
  | .ok place => match disk.top.at? place with
    | some (.file _ t) => some t
    | _ => none

/-- The path leads somewhere. -/
def exists? (disk : Disk) (p : Path) : Bool :=
  (resolve disk p).toOption.isSome

/-- The path itself is a symbolic link. -/
def isLink (disk : Disk) (p : Path) : Bool :=
  match resolveWith disk true p with
  | .error _ => false
  | .ok place => match disk.top.at? place with
    | some (.link _) => true
    | _ => false

/-! ## Changes -/

/-- Give a name an entry: in its place if it has one, else at the end. -/
def setEntry (name : FileName) (e : Entry) : List (FileName × Entry) → List (FileName × Entry)
  | [] => [(name, e)]
  | (n, d) :: es => if n = name then (n, e) :: es else (n, d) :: setEntry name e es

/-- Put an entry at a place; directories on the way are made if they are missing. -/
def Entry.put (e : Entry) : Place → Entry → Entry
  | [], _ => e
  | n :: place, .directory es =>
    .directory (setEntry n (e.put place ((es.lookup n).getD (.directory []))) es)
  | _ :: _, d => d

/-- Take the entry at a place away. -/
def Entry.erase : Place → Entry → Entry
  | [], d => d
  | [n], .directory es => .directory (es.filter fun (m, _) => m != n)
  | n :: place, .directory es =>
    match es.lookup n with
    | some e => .directory (setEntry n (Entry.erase place e) es)
    | none => .directory es
  | _, d => d

/-- The place of a path whose last segments need not exist: links on the way are followed as far as
the path leads. -/
def target (disk : Disk) (p : Path) : Place :=
  let step (place : Place) (s : FileName) : Place :=
    if s = [] ∨ s = Path.here then place
    else if s = Path.parent then place.dropLast
    else match disk.top.at? (place ++ [s]),
        follow disk.top false maxLinks (stepsFor 1) place [s] with
      | some (.link _), .ok there => there
      | _, _ => place ++ [s]
  (Path.segments p).foldl step (startOf disk.workplace p)

/-- The place of a path whose last segment is not followed, and whose other segments need not
exist. -/
def slot (disk : Disk) (p : Path) : Place :=
  let segments := (Path.segments p).filter fun s => s != [] && s != Path.here
  match segments.getLast? with
  | none => startOf disk.workplace p
  | some name =>
    let start : Path := if Path.isAbsolute p then [Path.slash] else []
    target disk (segments.dropLast.foldl Path.join start) ++ [name]

/-- Write a file. -/
def write (p : Path) (bytes : List UInt8) (modified : Int) (disk : Disk) : Disk :=
  { disk with top := Entry.put (.file bytes modified) (slot disk p) disk.top }

/-- Make a directory and those above it. -/
def makeDirectory (p : Path) (disk : Disk) : Disk :=
  match disk.top.at? (target disk p) with
  | some _ => disk
  | none => { disk with top := Entry.put (.directory []) (target disk p) disk.top }

/-- Take away what a path names, with all that is below it. -/
def remove (p : Path) (disk : Disk) : Disk :=
  { disk with top := disk.top.erase (slot disk p) }

/-- Make a symbolic link. -/
def link (p targetPath : Path) (disk : Disk) : Disk :=
  { disk with top := Entry.put (.link targetPath) (slot disk p) disk.top }

end MarkdownIndex.Files
