import MarkdownIndex.Text.Utf8

/-!
# Glob patterns: the tokens of a pattern

A pattern is read into tokens. `*` stands for any bytes and `?` for one byte, slashes included;
`**` as a whole component spans directories; brackets hold a class of bytes and braces hold
alternatives, which may be nested; a backslash takes the next character as it is.

* `Token` — the parts of a pattern.
* `GlobError` — why a text is no pattern.
* `scanClass` — a class from behind its opening bracket.
* `parse` — the tokens of a text.
-/

namespace MarkdownIndex.Glob

open Text

/-! ## Tokens -/

/-- A part of a pattern. -/
inductive Token where
  /-- this character -/
  | literal (c : Char)
  /-- one byte -/
  | any
  /-- any bytes -/
  | many
  /-- directories before what follows, or nothing: a leading `**` -/
  | leadingDirectories
  /-- a slash and all that follows it: a trailing `**` -/
  | everythingBelow
  /-- a slash, or directories between two slashes: `**` between slashes -/
  | directories
  /-- one byte of a class, or one outside it -/
  | oneOf (negated : Bool) (ranges : List (Char × Char))
  /-- one of several patterns -/
  | choice (branches : List (List Token))
deriving Inhabited

/-- Why a text is no pattern. -/
inductive GlobError where
  /-- a bracket is not closed -/
  | unclosedClass
  /-- the ends of a range are in the wrong order -/
  | invalidRange (low high : Char)
  /-- a brace is closed that was not opened -/
  | unopenedAlternates
  /-- a brace is not closed -/
  | unclosedAlternates
  /-- a backslash ends the text -/
  | danglingEscape
deriving DecidableEq, Repr

/-! ## Classes -/

/-- A class under construction: its ranges, the latest first. -/
structure ClassDraft where
  /-- the ranges so far -/
  ranges : List (Char × Char) := []
  /-- a hyphen waits for the end of its range -/
  inRange : Bool := false

/-- The upper end of the latest range. -/
def ClassDraft.close (d : ClassDraft) (high : Char) : Except GlobError ClassDraft :=
  match d.ranges with
  | [] => .ok { d with inRange := false }
  | (low, _) :: rs =>
    if high < low then .error (.invalidRange low high) else .ok ⟨(low, high) :: rs, false⟩

/-- The rest of a class and the text after it. The first character stands for itself, whatever it
is; a hyphen at the end does so too. -/
def scanRanges (d : ClassDraft) (first : Bool) :
    List Char → Except GlobError (List (Char × Char) × List Char)
  | [] => .error .unclosedClass
  | c :: cs =>
    if c = ']' ∧ ¬first then
      .ok ((if d.inRange then ('-', '-') :: d.ranges else d.ranges).reverse, cs)
    else if c = '-' ∧ ¬first ∧ ¬d.inRange then scanRanges { d with inRange := true } false cs
    else if d.inRange then
      match d.close c with
      | .error e => .error e
      | .ok d => scanRanges d false cs
    else scanRanges { d with ranges := (c, c) :: d.ranges } false cs

/-- A class from behind its opening bracket, and the text after it. -/
def scanClass : List Char → Except GlobError (Token × List Char)
  | '!' :: cs => (scanRanges {} true cs).map fun (rs, r) => (.oneOf true rs, r)
  | '^' :: cs => (scanRanges {} true cs).map fun (rs, r) => (.oneOf true rs, r)
  | cs => (scanRanges {} true cs).map fun (rs, r) => (.oneOf false rs, r)

/-! ## Reading -/

/-- A list of alternatives under construction. -/
structure Group where
  /-- the branches that are complete, the latest first -/
  done : List (List Token) := []
  /-- the tokens of the branch in progress, the latest first -/
  current : List Token := []

/-- A pattern under construction: the group at hand, and the groups around it. The outermost group
is the pattern itself. -/
structure Draft where
  /-- the group at hand -/
  group : Group := {}
  /-- the groups around it, the nearest first -/
  outer : List Group := []

namespace Draft

/-- The pattern with one more token. -/
def push (d : Draft) (t : Token) : Draft :=
  { d with group := { d.group with current := t :: d.group.current } }

/-- A brace is open. -/
def inBraces (d : Draft) : Bool := !d.outer.isEmpty

/-- A brace is opened. -/
def openBrace (d : Draft) : Draft := ⟨{}, d.group :: d.outer⟩

/-- A brace is closed. -/
def closeBrace (d : Draft) : Except GlobError Draft :=
  match d.outer with
  | [] => .error .unopenedAlternates
  | g :: gs =>
    let branches := (d.group.current.reverse :: d.group.done).reverse
    .ok ⟨{ g with current := .choice branches :: g.current }, gs⟩

/-- A comma: it separates alternatives inside braces, and stands for itself outside. -/
def comma (d : Draft) : Draft :=
  if d.inBraces then
    { d with group := ⟨d.group.current.reverse :: d.group.done, []⟩ }
  else d.push (.literal ',')

/-- The token before `**` is a slash or `**` itself; a `**` after it takes its place. -/
def replaceLast (d : Draft) (t : Token) : Draft :=
  match d.group.current with
  | .leadingDirectories :: _ => d
  | .everythingBelow :: _ => d
  | _ :: ts => { d with group := { d.group with current := t :: ts } }
  | [] => d.push t

end Draft

/-- The pattern after `**`, given the character before it, and the text that is left. It spans
directories if it is a whole component, and else is two stars. -/
def twoStars (d : Draft) (before : Option Char) (rest : List Char) : Draft × List Char :=
  let stars := (d.push .many).push .many
  if d.group.current.isEmpty then
    match rest with
    | [] => (d.push .leadingDirectories, [])
    | '/' :: r => (d.push .leadingDirectories, r)
    | r => (stars, r)
  else if before ≠ some '/' then (stars, rest)
  else
    match rest with
    | [] => (d.replaceLast .everythingBelow, [])
    | '/' :: r => (d.replaceLast .directories, r)
    | c :: r =>
      if (c = ',' ∨ c = '\x7d') ∧ d.inBraces then (d.replaceLast .everythingBelow, c :: r)
      else (stars, c :: r)

/-- The last character that was read between two places of a text. -/
def lastRead (before : Option Char) (from_ rest : List Char) : Option Char :=
  match from_.take (from_.length - rest.length) with
  | [] => before
  | cs => cs.getLast?

/-- Read a text into a pattern, given the character before it. -/
def parseFrom : (fuel : Nat) → Draft → (before : Option Char) → List Char → Except GlobError Draft
  | 0, d, _, _ => .ok d
  | _ + 1, d, _, [] => .ok d
  | fuel + 1, d, before, c :: cs =>
    match c, cs with
    | '?', cs => parseFrom fuel (d.push .any) (some c) cs
    | '*', '*' :: cs =>
      let (d, rest) := twoStars d before cs
      parseFrom fuel d (lastRead (some '*') cs rest) rest
    | '*', cs => parseFrom fuel (d.push .many) (some c) cs
    | '[', cs => do
      let (t, rest) ← scanClass cs
      parseFrom fuel (d.push t) (lastRead (some c) cs rest) rest
    | '\x7b', cs => parseFrom fuel d.openBrace (some c) cs
    | '\x7d', cs => do
      let d ← d.closeBrace
      parseFrom fuel d (some c) cs
    | ',', cs => parseFrom fuel d.comma (some c) cs
    | '\\', [] => .error .danglingEscape
    | '\\', e :: cs => parseFrom fuel (d.push (.literal e)) (some e) cs
    | c, cs => parseFrom fuel (d.push (.literal c)) (some c) cs

/-- The tokens of a pattern. -/
def parse (pattern : String) : Except GlobError (List Token) := do
  let cs := pattern.toList
  let d ← parseFrom (cs.length + 1) {} none cs
  if d.inBraces then .error .unclosedAlternates else .ok d.group.current.reverse

end MarkdownIndex.Glob
