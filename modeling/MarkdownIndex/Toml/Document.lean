import MarkdownIndex.Toml.Scalar

/-!
# TOML documents: statements and tables

A document is read in two steps: its text gives a list of statements, and the statements build a
table.

* `Statement` — `key = value`, `[header]` or `[[header]]`, with dotted keys as lists.
* `statements?` — the statements of a text.
* `Item`, `TableKind` — a table under construction. How a table came about decides what may still
  be added to it: a header may complete a table that only longer headers implied, a dotted key may
  extend a table that dotted keys made, and nothing else may be defined twice.
* `parse?` — the table of a text.
-/

namespace MarkdownIndex.Toml

open Text

/-- Arrays, tables and dotted keys nest less deep than this. -/
def nestingLimit : Nat := 80

/-! ## Tables under construction -/

/-- How a table came about. -/
inductive TableKind where
  /-- by its own header, in braces, or as the document itself -/
  | defined
  /-- as the parent of a table with a header -/
  | implied
  /-- by a dotted key -/
  | dotted
deriving DecidableEq, Repr

/-- What a key stands for while a document is built. -/
inductive Item where
  /-- a value -/
  | value (v : Value)
  /-- a table -/
  | table (kind : TableKind) (members : List (String × Item))
  /-- the tables of an array of tables, the latest last -/
  | tables (elements : List (List (String × Item)))

/-- The members of a table under construction. -/
abbrev Members := List (String × Item)

/-- Give a key a value: in its place if it has one, else at the end. -/
def setKey (key : String) (item : Item) : Members → Members
  | [] => [(key, item)]
  | (k, i) :: ms => if k = key then (k, item) :: ms else (k, i) :: setKey key item ms

/-- The latest element of an array of tables, changed; none if there is no element or no change. -/
def changeLast? (change : Members → Option Members) : List Members → Option (List Members)
  | [] => none
  | [m] => (change m).map ([·])
  | m :: ms => (changeLast? change ms).map (m :: ·)

/-- Change the table that a path leads to, given how it came about. The tables on the way are made
if they are missing; an array of tables leads to its latest element. Dotted keys pass only through
tables that no header defined. -/
def changeAt? (made : TableKind) (change : TableKind → Members → Option Members) :
    (path : List String) → TableKind → Members → Option Members
  | [], kind, ms => change kind ms
  | k :: path, _, ms =>
    match ms.lookup k with
    | none => (changeAt? made change path made []).map fun inner =>
      setKey k (.table made inner) ms
    | some (.value _) => none
    | some (.table kind inner) =>
      if made = .dotted ∧ kind = .defined then none
      else (changeAt? made change path kind inner).map fun inner =>
        setKey k (.table kind inner) ms
    | some (.tables elements) =>
      (changeLast? (changeAt? made change path .defined) elements).map fun elements =>
        setKey k (.tables elements) ms

/-- Add a key with a value to the table that the rest of the dotted key leads to: one that dotted
keys made, or the table at hand if there is no rest. -/
def addKey? (path : List String) (key : String) (v : Value) (ms : Members) : Option Members :=
  changeAt? .dotted (fun kind inner =>
    if (kind = .dotted) = (path = []) then none
    else if (inner.lookup key).isSome then none
    else some (setKey key (.value v) inner)) path .defined ms

/-- Begin a table with a header. -/
def addTable? (path : List String) (key : String) (ms : Members) : Option Members :=
  changeAt? .implied (fun _ inner =>
    match inner.lookup key with
    | none => some (setKey key (.table .defined []) inner)
    | some (.table .implied members) => some (setKey key (.table .defined members) inner)
    | some _ => none) path .defined ms

/-- Begin an element of an array of tables. -/
def addElement? (path : List String) (key : String) (ms : Members) : Option Members :=
  changeAt? .implied (fun _ inner =>
    match inner.lookup key with
    | none => some (setKey key (.tables [[]]) inner)
    | some (.tables elements) => some (setKey key (.tables (elements ++ [[]])) inner)
    | some _ => none) path .defined ms

mutual

/-- The value of what was built. -/
def Item.toValue : Item → Value
  | .value v => v
  | .table _ ms => .table (memberValues ms)
  | .tables es => .array (elementValues es)

/-- The values of the members of a table. -/
def memberValues : List (String × Item) → List (String × Value)
  | [] => []
  | (k, i) :: ms => (k, i.toValue) :: memberValues ms

/-- The values of the elements of an array of tables. -/
def elementValues : List (List (String × Item)) → List Value
  | [] => []
  | e :: es => .table (memberValues e) :: elementValues es

end

/-! ## Keys -/

/-- A character of a key without quotes. -/
def isBareKey (c : Char) : Bool := isAsciiAlphanumeric c || c == '_' || c == '-'

/-- One part of a dotted key. -/
def scanSimpleKey? : List Char → Option (String × List Char)
  | '\"' :: cs => (scanBasic? (cs.length + 1) cs).map fun (k, r) => (String.ofList k, r)
  | '\'' :: cs => (scanLiteral? cs).map fun (k, r) => (String.ofList k, r)
  | cs =>
    if (cs.takeWhile isBareKey).isEmpty then none
    else some (String.ofList (cs.takeWhile isBareKey), cs.dropWhile isBareKey)

/-- A key of at most `parts` parts with points between them, and the white space around it. -/
def scanKey? : (parts : Nat) → List Char → Option (List String × List Char)
  | 0, _ => none
  | parts + 1, cs => do
    let (k, r) ← scanSimpleKey? (skipSpace cs)
    match skipSpace r with
    | '.' :: r =>
      let (ks, r) ← scanKey? parts r
      return (k :: ks, r)
    | r => return ([k], r)

/-- The last part of a key and the parts before it. -/
def splitLast? : List String → Option (List String × String)
  | [] => none
  | [k] => some ([], k)
  | k :: ks => (splitLast? ks).map fun (path, last) => (k :: path, last)

/-! ## Values -/

/-- The text after a comment, if there is one. -/
def skipComment : List Char → List Char
  | '#' :: cs => cs.dropWhile isPrintable
  | cs => cs

/-- A text without the white space, comments and line ends in front of it. -/
def skipFiller : (fuel : Nat) → List Char → List Char
  | 0, cs => cs
  | fuel + 1, cs =>
    match afterNewline? (skipComment (skipSpace cs)) with
    | some r => skipFiller fuel r
    | none => skipComment (skipSpace cs)

/-- A text without any filler in front of it. -/
def skipLines (cs : List Char) : List Char := skipFiller (cs.length + 1) cs

/-- The members of a table in braces, as keys and values. -/
def buildInline? (pairs : List (List String × Value)) : Option Value :=
  (pairs.foldlM (fun ms (key, v) => do
    let (path, last) ← splitLast? key
    addKey? path last v ms) ([] : Members)).map fun ms => .table (memberValues ms)

mutual

/-- A value nested less than `depth` deep. -/
def scanValue? : (fuel depth : Nat) → List Char → Option (Value × List Char)
  | 0, _, _ => none
  | fuel + 1, depth, cs =>
    match cs with
    | '[' :: r => if depth ≤ 1 then none else
      (scanItems? fuel (depth - 1) r).map fun (vs, r) => (.array vs, r)
    | '\x7b' :: r => if depth ≤ 1 then none else do
      let (pairs, r) ← scanPairs? fuel (depth - 1) true (skipSpace r)
      let v ← buildInline? pairs
      return (v, r)
    | '\"' :: _ => (scanString? cs).map fun (s, r) => (.string (String.ofList s), r)
    | '\'' :: _ => (scanString? cs).map fun (s, r) => (.string (String.ofList s), r)
    | 't' :: 'r' :: 'u' :: 'e' :: r => some (.boolean true, r)
    | 'f' :: 'a' :: 'l' :: 's' :: 'e' :: r => some (.boolean false, r)
    | cs =>
      match scanDatetime? cs, scanFloat? cs, scanInteger? cs with
      | some (d, r), _, _ => some (.datetime d, r)
      | none, some (x, r), _ => some (.float x, r)
      | none, none, some (n, r) => some (.integer n, r)
      | none, none, none => none

/-- The items of an array up to its closing bracket; a comma may follow the last one. -/
def scanItems? : (fuel depth : Nat) → List Char → Option (List Value × List Char)
  | 0, _, _ => none
  | fuel + 1, depth, cs =>
    match skipLines cs with
    | ']' :: r => some ([], r)
    | cs => do
      let (v, r) ← scanValue? fuel depth cs
      match skipLines r with
      | ',' :: r =>
        let (vs, r) ← scanItems? fuel depth r
        return (v :: vs, r)
      | ']' :: r => return ([v], r)
      | _ => none

/-- The members of a table in braces up to its closing brace, on one line. -/
def scanPairs? : (fuel depth : Nat) → (first : Bool) → List Char →
    Option (List (List String × Value) × List Char)
  | 0, _, _, _ => none
  | fuel + 1, depth, first, cs =>
    match cs, first with
    | '\x7d' :: r, true => some ([], r)
    | cs, _ => do
      let (key, r) ← scanKey? (nestingLimit - 1) cs
      match r with
      | '=' :: r =>
        let (v, r) ← scanValue? fuel depth (skipSpace r)
        match skipSpace r with
        | ',' :: r =>
          let (ps, r) ← scanPairs? fuel depth false (skipSpace r)
          return ((key, v) :: ps, r)
        | '\x7d' :: r => return ([(key, v)], r)
        | _ => none
      | _ => none

end

/-! ## Statements -/

/-- One statement of a document. -/
inductive Statement where
  /-- `key = value` -/
  | assign (key : List String) (v : Value)
  /-- `[key]` -/
  | header (key : List String)
  /-- `[[key]]` -/
  | element (key : List String)

/-- The text after the end of a statement: white space, a comment, and a line end or the end of the
text. -/
def afterStatement? (cs : List Char) : Option (List Char) :=
  match skipComment (skipSpace cs) with
  | [] => some []
  | cs => afterNewline? cs

/-- A statement and the text after it. -/
def scanStatement? (cs : List Char) : Option (Statement × List Char) :=
  match cs with
  | '[' :: '[' :: r => do
    let (key, r) ← scanKey? (nestingLimit - 1) r
    match r with
    | ']' :: ']' :: r => return (.element key, r)
    | _ => none
  | '[' :: r => do
    let (key, r) ← scanKey? (nestingLimit - 1) r
    match r with
    | ']' :: r => return (.header key, r)
    | _ => none
  | cs => do
    let (key, r) ← scanKey? (nestingLimit - 1) cs
    match r with
    | '=' :: r =>
      let (v, r) ← scanValue? (2 * r.length + 2) nestingLimit (skipSpace r)
      return (.assign key v, r)
    | _ => none

/-- The statements of a text. Every statement reads at least one character. -/
def scanStatements? : (fuel : Nat) → List Char → Option (List Statement)
  | 0, _ => none
  | fuel + 1, cs =>
    match skipLines cs with
    | [] => some []
    | cs => do
      let (s, r) ← scanStatement? cs
      let r ← afterStatement? r
      let ss ← scanStatements? fuel r
      return s :: ss

/-- A text without the mark of its byte order. -/
def skipByteOrderMark : List Char → List Char
  | '\uFEFF' :: cs => cs
  | cs => cs

/-- The statements of a text. -/
def statements? (cs : List Char) : Option (List Statement) :=
  scanStatements? (cs.length + 1) (skipByteOrderMark cs)

/-! ## Documents -/

/-- A document under construction: what was built, and where keys go. -/
structure Draft where
  /-- the table of the document -/
  root : Members
  /-- the key of the header that is in force -/
  current : List String

/-- Put keys and values into the table that a header leads to. -/
def addUnder? (header path : List String) (key : String) (v : Value) (ms : Members) :
    Option Members :=
  changeAt? .implied (fun _ inner => addKey? path key v inner) header .defined ms

/-- The document after one more statement. -/
def Draft.add? (d : Draft) : Statement → Option Draft
  | .assign key v => do
    let (path, last) ← splitLast? key
    let root ← addUnder? d.current path last v d.root
    return { d with root }
  | .header key => do
    let (path, last) ← splitLast? key
    let root ← addTable? path last d.root
    return ⟨root, key⟩
  | .element key => do
    let (path, last) ← splitLast? key
    let root ← addElement? path last d.root
    return ⟨root, key⟩

/-- The table of a text. -/
def parse? (text : String) : Option (List (String × Value)) := do
  let ss ← statements? text.toList
  let d ← ss.foldlM Draft.add? ⟨[], []⟩
  return memberValues d.root

end MarkdownIndex.Toml
