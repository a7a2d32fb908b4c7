import MarkdownIndex.Json.Basic

/-!
# JSON texts as trees

A text is read into a tree whatever it holds. Where it stops being JSON the tree has a **defect**,
and nothing after that place is read; a reader of the tree meets the defect exactly when it asks
for what the text should have held there. So a reader that finds a fault of its own before the
defect reports that fault.

* `Node` — the tree. A string with an unpaired surrogate has no text, a number beyond the floats
  no value; both matter only to a reader that wants them.
* `Node.read` — the tree of a text, with what follows the value.
* `Node.sound` — the tree has no defect.
* `Node.toJson?` — the value of a sound tree that is nested less than 128 deep; of members with
  one name the last counts.
* `Json.toNode` — the tree of a value.
-/

namespace MarkdownIndex.Json

/-! ## Trees -/

/-- A JSON text as far as it could be read. -/
inductive Node where
  /-- the text is not JSON from here on -/
  | defect
  /-- `null` -/
  | null
  /-- `true` or `false` -/
  | bool (b : Bool)
  /-- a number with its value, if it has one -/
  | number (value : Option Number)
  /-- a string with its text, if it has one -/
  | string (text : Option String)
  /-- an array; a defect in its punctuation stands for an item -/
  | array (items : List Node)
  /-- an object; a defect in its punctuation stands for a member without a name -/
  | object (members : List (Option String × Node))
deriving Inhabited

/-! ## Scanning -/

/-- The four characters that may stand between tokens. -/
def isSpace (c : Char) : Bool :=
  c == ' ' || c == '\n' || c == '\t' || c == '\r'

/-- A text without the white space before its next token. -/
def skipSpace (cs : List Char) : List Char :=
  cs.dropWhile isSpace

/-- The value of a digit. -/
def digit (c : Char) : Nat := c.toNat - 48

/-- The digits at the start of a text, and the rest. -/
def scanDigits (cs : List Char) : List Nat × List Char :=
  ((cs.takeWhile Char.isDigit).map digit, cs.dropWhile Char.isDigit)

/-- The value of four hexadecimal digits. -/
def hexUnit? (a b c d : Char) : Option Nat := do
  let a ← Text.hexValue? a
  let b ← Text.hexValue? b
  let c ← Text.hexValue? c
  let d ← Text.hexValue? d
  return ((a * 16 + b) * 16 + c) * 16 + d

/-- The fraction of a number: no digits without a point, at least one after it. -/
def scanFraction? : List Char → Option (List Nat × List Char)
  | '.' :: cs => if (scanDigits cs).1.isEmpty then none else some (scanDigits cs)
  | cs => some ([], cs)

/-- The exponent of a number, with at least one digit. -/
def scanExponent? : List Char → Option (Option (Bool × List Nat) × List Char)
  | c :: cs =>
    if c = 'e' ∨ c = 'E' then
      let (down, cs) := match cs with
        | '-' :: cs => (true, cs)
        | '+' :: cs => (false, cs)
        | cs => (false, cs)
      let (ds, rest) := scanDigits cs
      if ds.isEmpty then none else some (some (down, ds), rest)
    else some (none, c :: cs)
  | [] => some (none, [])

/-- The whole part of a number: a lone zero, or digits that do not start with one. -/
def scanWhole? (cs : List Char) : Option (List Nat × List Char) :=
  match scanDigits cs with
  | ([], _) => none
  | (0 :: _ :: _, _) => none
  | found => some found

/-- The number at the start of a text. -/
def scanNumber? (cs : List Char) : Option (Literal × List Char) := do
  let (negative, cs) := match cs with
    | '-' :: cs => (true, cs)
    | cs => (false, cs)
  let (whole, cs) ← scanWhole? cs
  let (fraction, cs) ← scanFraction? cs
  let (exponent, cs) ← scanExponent? cs
  return (⟨negative, whole, fraction, exponent⟩, cs)

/-! ## Strings -/

/-- One unit of a string: a character, or a number spelled with four hexadecimal digits. -/
inductive StringUnit where
  /-- a character that stands for itself or was escaped by name -/
  | char (c : Char)
  /-- a unit of sixteen bits -/
  | code (n : Nat)
deriving DecidableEq, Repr

/-- The character named by one letter after a backslash. -/
def namedEscape? (c : Char) : Option Char :=
  match c with
  | '\"' => some '\"'
  | '\\' => some '\\'
  | '/' => some '/'
  | 'b' => some (Char.ofNat 8)
  | 'f' => some (Char.ofNat 12)
  | 'n' => some '\n'
  | 'r' => some '\r'
  | 't' => some '\t'
  | _ => none

/-- The units of a string up to its closing quote, and the text after it. -/
def scanUnits? : List Char → Option (List StringUnit × List Char)
  | [] => none
  | '\"' :: cs => some ([], cs)
  | '\\' :: 'u' :: a :: b :: c :: d :: cs => do
    let n ← hexUnit? a b c d
    let (us, rest) ← scanUnits? cs
    return (.code n :: us, rest)
  | '\\' :: c :: cs => do
    let e ← namedEscape? c
    let (us, rest) ← scanUnits? cs
    return (.char e :: us, rest)
  | c :: cs =>
    if c = '\\' ∨ c.toNat < 32 then none
    else do
      let (us, rest) ← scanUnits? cs
      return (.char c :: us, rest)

/-- The text of a string: a leading surrogate joins with the trailing one that follows it, and no
other surrogate is allowed. -/
def textOfUnits? : List StringUnit → Option (List Char)
  | [] => some []
  | .char c :: us => (textOfUnits? us).map (c :: ·)
  | .code n :: .code m :: us =>
    if 0xD800 ≤ n ∧ n < 0xDC00 then
      if 0xDC00 ≤ m ∧ m < 0xE000 then
        (textOfUnits? us).map (Char.ofNat (0x10000 + (n - 0xD800) * 0x400 + (m - 0xDC00)) :: ·)
      else none
    else if 0xDC00 ≤ n ∧ n < 0xE000 then none
    else (textOfUnits? (.code m :: us)).map (Char.ofNat n :: ·)
  | .code n :: us =>
    if 0xD800 ≤ n ∧ n < 0xE000 then none
    else (textOfUnits? us).map (Char.ofNat n :: ·)

/-- The string after an opening quote: its text, if it has one, and what follows it. -/
def scanString? (cs : List Char) : Option (Option String × List Char) :=
  (scanUnits? cs).map fun (us, rest) => ((textOfUnits? us).map String.ofList, rest)

/-! ## Reading -/

mutual

/-- The value at the start of a text and, if it has no defect, what follows it. -/
def readValue : (fuel : Nat) → List Char → Node × Option (List Char)
  | 0, _ => (.defect, none)
  | fuel + 1, cs =>
    match skipSpace cs with
    | 'n' :: 'u' :: 'l' :: 'l' :: r => (.null, some r)
    | 't' :: 'r' :: 'u' :: 'e' :: r => (.bool true, some r)
    | 'f' :: 'a' :: 'l' :: 's' :: 'e' :: r => (.bool false, some r)
    | '\"' :: r =>
      match scanString? r with
      | some (s, r) => (.string s, some r)
      | none => (.defect, none)
    | '[' :: r =>
      let (items, rest) := readItems fuel true r
      (.array items, rest)
    | '\x7b' :: r =>
      let (members, rest) := readMembers fuel true r
      (.object members, rest)
    | cs =>
      match scanNumber? cs with
      | some (l, r) => (.number l.value?, some r)
      | none => (.defect, none)

/-- The items of an array from its start or from behind an item. -/
def readItems : (fuel : Nat) → (first : Bool) → List Char → List Node × Option (List Char)
  | 0, _, _ => ([.defect], none)
  | fuel + 1, first, cs =>
    match skipSpace cs, first with
    | ']' :: r, _ => ([], some r)
    | ',' :: r, false => readItem fuel r
    | cs, true => readItem fuel cs
    | _, false => ([.defect], none)

/-- An item of an array and the items after it. -/
def readItem : (fuel : Nat) → List Char → List Node × Option (List Char)
  | 0, _ => ([.defect], none)
  | fuel + 1, cs =>
    match readValue fuel cs with
    | (v, none) => ([v], none)
    | (v, some r) =>
      let (vs, rest) := readItems fuel false r
      (v :: vs, rest)

/-- The members of an object from its start or from behind a member. -/
def readMembers : (fuel : Nat) → (first : Bool) → List Char →
    List (Option String × Node) × Option (List Char)
  | 0, _, _ => ([(none, .defect)], none)
  | fuel + 1, first, cs =>
    match skipSpace cs, first with
    | '\x7d' :: r, _ => ([], some r)
    | ',' :: r, false => readMember fuel (skipSpace r)
    | cs, true => readMember fuel cs
    | _, false => ([(none, .defect)], none)

/-- A member of an object and the members after it. -/
def readMember : (fuel : Nat) → List Char → List (Option String × Node) × Option (List Char)
  | 0, _ => ([(none, .defect)], none)
  | fuel + 1, cs =>
    match cs with
    | '\"' :: r =>
      match scanString? r with
      | none => ([(none, .defect)], none)
      | some (k, r) =>
        match skipSpace r with
        | ':' :: r =>
          match readValue fuel r with
          | (v, none) => ([(k, v)], none)
          | (v, some r) =>
            let (ms, rest) := readMembers fuel false r
            ((k, v) :: ms, rest)
        | _ => ([(k, .defect)], none)
    | _ => ([(none, .defect)], none)

end

/-- The value at the start of a text and, if it has no defect, what follows it. Every step but one
in two reads a character, so twice the length bounds the depth of the recursion. -/
def Node.read (cs : List Char) : Node × Option (List Char) :=
  readValue (2 * cs.length + 2) cs

/-- A text holds nothing but white space. -/
def isSpaceText (cs : List Char) : Bool :=
  cs.all isSpace

/-! ## Sound trees -/

mutual

/-- The tree has no defect. -/
def Node.sound : Node → Bool
  | .defect => false
  | .array items => soundItems items
  | .object members => soundMembers members
  | _ => true

/-- No item has a defect. -/
def soundItems : List Node → Bool
  | [] => true
  | v :: vs => v.sound && soundItems vs

/-- No member has a defect. -/
def soundMembers : List (Option String × Node) → Bool
  | [] => true
  | (_, v) :: ms => v.sound && soundMembers ms

end

/-- Set the member with a name: in its old place if there is one, else at the end. -/
def setMember (key : String) (v : Json) : List (String × Json) → List (String × Json)
  | [] => [(key, v)]
  | (k, w) :: ms => if k = key then (k, v) :: ms else (k, w) :: setMember key v ms

mutual

/-- The value of a tree nested less than `depth` deep. -/
def valueWithin (depth : Nat) : Node → Option Json
  | .defect => none
  | .null => some .null
  | .bool b => some (.bool b)
  | .number n => n.map .number
  | .string s => s.map .string
  | .array items => if depth ≤ 1 then none else (itemsWithin (depth - 1) items).map .array
  | .object members =>
    if depth ≤ 1 then none else (membersWithin (depth - 1) [] members).map .object

/-- The values of the items of an array. -/
def itemsWithin (depth : Nat) : List Node → Option (List Json)
  | [] => some []
  | v :: vs => do
    let x ← valueWithin depth v
    let xs ← itemsWithin depth vs
    return x :: xs

/-- The values of the members of an object, after those already read. -/
def membersWithin (depth : Nat) (done : List (String × Json)) :
    List (Option String × Node) → Option (List (String × Json))
  | [] => some done
  | (k, v) :: ms => do
    let k ← k
    let x ← valueWithin depth v
    membersWithin depth (setMember k x done) ms

end

/-- The value of a tree. -/
def Node.toJson? (n : Node) : Option Json :=
  valueWithin 128 n

/-- The value of a text that holds one value and white space around it. -/
def parse? (s : String) : Option Json :=
  match Node.read s.toList with
  | (n, some rest) => if isSpaceText rest then n.toJson? else none
  | (_, none) => none

/-! ## Trees of values -/

mutual

/-- The tree of a value. -/
def toNode : Json → Node
  | .null => .null
  | .bool b => .bool b
  | .number n => .number (some n)
  | .string s => .string (some s)
  | .array items => .array (itemNodes items)
  | .object members => .object (memberNodes members)

/-- The trees of the items of an array. -/
def itemNodes : List Json → List Node
  | [] => []
  | v :: vs => v.toNode :: itemNodes vs

/-- The trees of the members of an object. -/
def memberNodes : List (String × Json) → List (Option String × Node)
  | [] => []
  | (k, v) :: ms => (some k, v.toNode) :: memberNodes ms

end

end MarkdownIndex.Json
