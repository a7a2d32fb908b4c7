import MarkdownIndex.Glob.Pattern

/-!
# Glob matching: the texts of a pattern

A pattern is matched against the bytes of a path.

* `Token.rests`, `rests` — every text that can be left after a token or a pattern has taken its
  part from the front.
* `Glob` — a pattern ready for use; the pattern `**` alone has every text.
* `Glob.has` — nothing can be left of the text.
* `Globs` — several patterns, of which one has to have the text.
-/

namespace MarkdownIndex.Glob

open Text

/-- A list of bytes. -/
abbrev Bytes := List UInt8

/-! ## Single tokens -/

/-- A text without a given beginning. -/
def dropPrefix? : Bytes → Bytes → Option Bytes
  | [], s => some s
  | _ :: _, [] => none
  | b :: bs, c :: cs => if b = c then dropPrefix? bs cs else none

/-- Every ending of a text, itself included. -/
def endings : Bytes → List Bytes
  | [] => [[]]
  | b :: bs => (b :: bs) :: endings bs

/-- The byte of a slash. -/
def slash : UInt8 := 47

/-- Every ending of a text behind a slash. -/
def afterSlashes : Bytes → List Bytes
  | [] => []
  | b :: bs => if b = slash then bs :: afterSlashes bs else afterSlashes bs

/-- The parts of a class as intervals of bytes. A range of characters of several bytes falls apart:
the bytes before its hyphen and behind it stand for themselves, and the two next to it make an
interval. -/
def byteRanges (low high : Char) : List (UInt8 × UInt8) :=
  if low = high then (encodeChar low).map fun b => (b, b)
  else
    let before := encodeChar low
    let behind := encodeChar high
    before.dropLast.map (fun b => (b, b)) ++
      [(before.getLast?.getD 0, behind.headD 0)] ++
      behind.tail.map fun b => (b, b)

/-- A byte is in a class. -/
def inClass (negated : Bool) (ranges : List (Char × Char)) (b : UInt8) : Bool :=
  let found := ranges.any fun (low, high) =>
    (byteRanges low high).any fun (l, h) => l ≤ b && b ≤ h
  found != negated

/-! ## Patterns -/

/-- Texts without repetitions; all are endings of one text, so their length tells them apart. -/
def distinct (ss : List Bytes) : List Bytes :=
  ss.foldr (fun s kept => if kept.any (·.length == s.length) then kept else s :: kept) []

mutual

/-- The token can have no effect: it is a choice without a branch that has one. -/
def Token.isVoid : Token → Bool
  | .choice branches => allVoid branches
  | _ => false

/-- No token of a branch has an effect. -/
def branchVoid : List Token → Bool
  | [] => true
  | t :: ts => t.isVoid && branchVoid ts

/-- No branch has an effect. -/
def allVoid : List (List Token) → Bool
  | [] => true
  | b :: bs => branchVoid b && allVoid bs

end

mutual

/-- What can be left of a text after a token. -/
def Token.rests : Token → Bytes → List Bytes
  | .literal c, s => (dropPrefix? (encodeChar c) s).toList
  | .any, s => match s with
    | [] => []
    | _ :: r => [r]
  | .many, s => endings s
  | .leadingDirectories, s => s :: afterSlashes s
  | .everythingBelow, s => match s with
    | [] => []
    | b :: r => if b = slash then endings r else []
  | .directories, s => match s with
    | [] => []
    | b :: r => if b = slash then r :: afterSlashes r else []
  | .oneOf negated ranges, s => match s with
    | [] => []
    | b :: r => if inClass negated ranges b then [r] else []
  | .choice branches, s => if allVoid branches then [s] else branchRests branches s

/-- What can be left of a text after a pattern. -/
def rests : List Token → Bytes → List Bytes
  | [], s => [s]
  | t :: ts, s => distinct ((t.rests s).flatMap (rests ts))

/-- What can be left of a text after one of several patterns; a pattern without effect does not
count. -/
def branchRests : List (List Token) → Bytes → List Bytes
  | [], _ => []
  | b :: bs, s => (if branchVoid b then [] else rests b s) ++ branchRests bs s

end

end MarkdownIndex.Glob

namespace MarkdownIndex

/-! ## Globs -/

/-- A pattern ready for use. -/
structure Glob where
  /-- its tokens -/
  tokens : List Glob.Token

namespace Glob

/-- The glob of a pattern. -/
def compile (pattern : String) : Except GlobError Glob :=
  (parse pattern).map Glob.mk

/-- A text is one of the glob's. -/
def has (g : Glob) (path : String) : Bool :=
  match g.tokens with
  | [.leadingDirectories] => true
  | ts => (rests ts (Text.encode path.toList)).any List.isEmpty

end Glob

/-- Several globs. -/
abbrev Globs := List Glob

namespace Globs

/-- The globs of several patterns. -/
def compile (patterns : List String) : Except Glob.GlobError Globs :=
  patterns.mapM Glob.compile

/-- A text is one of some glob's. -/
def has (s : Globs) (path : String) : Bool :=
  List.any s (·.has path)

end Globs

end MarkdownIndex
