import MarkdownIndex.Text.Blank
import MarkdownIndex.Text.Utf8

/-!
# Paths: spellings and components

A path is made of bytes, and need not be a text: the machine asks no more of a name than that it has
no slash. To be told or to be known by, a path is turned into the text that comes nearest to it, and
two paths may well come nearest to the same text.

Two spellings are the same path when they have the same components: doubled and trailing slashes and
dots inside a path do not count, a dot at the front does.

* `Path`, `FileName` — what leads to a file, and one step of it.
* `Path.ofText`, `Path.text` — the path that a text spells, and the text of a path.
* `Component`, `components` — what a path is made of, in order.
* `compare` — the order of paths, component by component.
* `join` — a name below a path.
* `fileStem` — the name of a file without its extension.
-/

namespace MarkdownIndex

/-- What leads to a file: any bytes, with slashes between names. -/
abbrev Path := List UInt8

/-- A name in a directory: bytes without a slash. -/
abbrev FileName := List UInt8

namespace Path

open Text

/-! ## Paths and texts -/

/-- The path that a text spells. -/
def ofText (s : String) : Path :=
  encode s.toList

/-- The text of a path, with `U+FFFD` for what is not UTF-8. -/
def text (p : Path) : String :=
  String.ofList (decodeLossy p)

/-! ## Components -/

/-- The byte between names. -/
def slash : UInt8 := 47

/-- The byte in front of an extension. -/
def dot : UInt8 := 46

/-- What stands for the directory itself. -/
def here : FileName := [dot]

/-- What stands for the directory above. -/
def parent : FileName := [dot, dot]

/-- The path starts at the top of all files. -/
def isAbsolute (p : Path) : Bool :=
  p.head? == some slash

/-- One step of a path. -/
inductive Component where
  /-- the top of all files -/
  | root
  /-- a dot in front -/
  | here
  /-- the directory above -/
  | parent
  /-- a name -/
  | name (s : FileName)
deriving DecidableEq, Repr

/-- What stands between the slashes of a path. -/
def segments (p : Path) : List FileName :=
  splitAtClass (· == slash) p

/-- The component that a segment stands for; empty ones and dots are none. -/
def component? (s : FileName) : Option Component :=
  if s = [] ∨ s = here then none
  else if s = parent then some .parent
  else some (.name s)

/-- What the first segment of a path stands for. -/
def lead (s : FileName) : List Component :=
  if s = [] then [.root]
  else if s = here then [.here]
  else (component? s).toList

/-- The components of a path, in order. -/
def components (p : Path) : List Component :=
  match p, segments p with
  | _ :: _, s :: ss => lead s ++ ss.filterMap component?
  | _, _ => []

/-- Two spellings of one path. -/
def same (p q : Path) : Bool :=
  components p == components q

/-! ## Order -/

/-- The rank of a kind of component. -/
def Component.rank : Component → Nat
  | .root => 0
  | .here => 1
  | .parent => 2
  | .name _ => 3

/-- Lexicographic order of lists. -/
def compareLists (cmp : α → α → Ordering) : List α → List α → Ordering
  | [], [] => .eq
  | [], _ :: _ => .lt
  | _ :: _, [] => .gt
  | a :: as, b :: bs => (cmp a b).then (compareLists cmp as bs)

/-- The order of bytes, by number. -/
def compareBytes (a b : UInt8) : Ordering :=
  compare a.toNat b.toNat

/-- The order of components: by kind, and names by their bytes. -/
def Component.compare : Component → Component → Ordering
  | .name s, .name t => compareLists compareBytes s t
  | a, b => Ord.compare a.rank b.rank

/-- The order of paths, component by component. -/
def compare (p q : Path) : Ordering :=
  compareLists Component.compare (components p) (components q)

/-- The first path does not come after the second. -/
def le (p q : Path) : Bool :=
  (compare p q).isLE

/-! ## Parts -/

/-- A name below a path. -/
def join (p : Path) (name : FileName) : Path :=
  match p.getLast? with
  | none => name
  | some b => if b = slash then p ++ name else p ++ slash :: name

/-- The last component of a path, if it is a name. -/
def fileName? (p : Path) : Option FileName :=
  match (components p).getLast? with
  | some (.name s) => some s
  | _ => none

/-- A name without its extension: what follows the last dot, unless that dot comes first. -/
def stemOfName (s : FileName) : FileName :=
  match s.reverse.dropWhile (· != dot) with
  | [] => s
  | [_] => s
  | _ :: stem => stem.reverse

/-- The text of the name of a file without its extension; empty if the path does not end in a name.
-/
def fileStem (p : Path) : String :=
  text (((fileName? p).map stemOfName).getD [])

end Path

end MarkdownIndex
