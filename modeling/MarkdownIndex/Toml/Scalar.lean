import MarkdownIndex.Decimal.Read
import MarkdownIndex.Text.Alphanumeric
import MarkdownIndex.Text.Hex

/-!
# TOML scalars: strings, numbers, dates

Scanners for the values that have no parts. A scanner takes the text at hand and gives what it
found together with the text after it.

* `Value` — a TOML value; dates and times are kept as they are spelled.
* `scanBasic?`, `scanLiteral?`, and their multi-line forms — strings.
* `scanInteger?`, `scanFloat?` — numbers; an integer has 64 bits, and a float must not grow beyond
  the largest one upwards.
* `scanDatetime?` — dates, times, and both together.
-/

namespace MarkdownIndex.Toml

open Text

/-! ## Values -/

/-- A TOML value. -/
inductive Value where
  /-- a string -/
  | string (s : String)
  /-- an integer of 64 bits -/
  | integer (n : Int)
  /-- a float -/
  | float (x : Float)
  /-- a truth value -/
  | boolean (b : Bool)
  /-- a date, a time or both, as spelled -/
  | datetime (spelling : String)
  /-- an array -/
  | array (items : List Value)
  /-- a table, its keys in order -/
  | table (members : List (String × Value))
deriving Inhabited

/-! ## Characters -/

/-- White space within a line. -/
def isSpace (c : Char) : Bool := c == ' ' || c == '\t'

/-- A text without the white space in front of it. -/
def skipSpace (cs : List Char) : List Char := cs.dropWhile isSpace

/-- The text after a line end, if it starts with one. -/
def afterNewline? : List Char → Option (List Char)
  | '\n' :: cs => some cs
  | '\r' :: '\n' :: cs => some cs
  | _ => none

/-- A character that may stand in a comment or a string: a tab, or one that is no control
character. -/
def isPrintable (c : Char) : Bool :=
  c == '\t' || (32 ≤ c.toNat && c.toNat ≠ 127)

/-- A text without the white space and line ends in front of it. -/
def skipSpaceLines : List Char → List Char
  | ' ' :: cs => skipSpaceLines cs
  | '\t' :: cs => skipSpaceLines cs
  | '\n' :: cs => skipSpaceLines cs
  | '\r' :: '\n' :: cs => skipSpaceLines cs
  | cs => cs

/-! ## Strings -/

/-- The character named by one letter after a backslash. -/
def namedEscape? (c : Char) : Option Char :=
  match c with
  | 'b' => some (Char.ofNat 8)
  | 't' => some '\t'
  | 'n' => some '\n'
  | 'f' => some (Char.ofNat 12)
  | 'r' => some '\r'
  | '\"' => some '\"'
  | '\\' => some '\\'
  | _ => none

/-- The character with a code point, which must not be a surrogate. -/
def charOfCode? (n : Nat) : Option Char :=
  if n < 0xD800 ∨ (0xDFFF < n ∧ n < 0x110000) then some (Char.ofNat n) else none

/-- The number spelled by `n` hexadecimal digits, and the rest. -/
def scanHex? : (n : Nat) → (value : Nat) → List Char → Option (Nat × List Char)
  | 0, v, cs => some (v, cs)
  | n + 1, v, c :: cs => (hexValue? c).bind fun d => scanHex? n (v * 16 + d) cs
  | _ + 1, _, [] => none

/-- The character that an escape stands for, from behind its backslash. -/
def scanEscape? : List Char → Option (Char × List Char)
  | 'u' :: cs => (scanHex? 4 0 cs).bind fun (n, r) => (charOfCode? n).map (·, r)
  | 'U' :: cs => (scanHex? 8 0 cs).bind fun (n, r) => (charOfCode? n).map (·, r)
  | c :: cs => (namedEscape? c).map (·, cs)
  | [] => none

/-- A string in double quotes, from behind its opening quote. -/
def scanBasic? : (fuel : Nat) → List Char → Option (List Char × List Char)
  | 0, _ => none
  | _ + 1, [] => none
  | _ + 1, '\"' :: cs => some ([], cs)
  | fuel + 1, '\\' :: cs => do
    let (c, cs) ← scanEscape? cs
    let (s, rest) ← scanBasic? fuel cs
    return (c :: s, rest)
  | fuel + 1, c :: cs =>
    if isPrintable c then (scanBasic? fuel cs).map fun (s, rest) => (c :: s, rest) else none

/-- A string in single quotes, from behind its opening quote. -/
def scanLiteral? : List Char → Option (List Char × List Char)
  | [] => none
  | '\'' :: cs => some ([], cs)
  | c :: cs =>
    if isPrintable c then (scanLiteral? cs).map fun (s, rest) => (c :: s, rest) else none

/-- How a run of quotes inside a multi-line string ends it: up to two quotes belong to the string,
three end it, and up to two before these belong to it. -/
def closingRun? (q : Char) : List Char → Option (List Char × List Char)
  | a :: b :: c :: d :: e :: cs =>
    if a = q ∧ b = q ∧ c = q then
      if d = q then if e = q then some ([q, q], cs) else some ([q], e :: cs)
      else some ([], d :: e :: cs)
    else none
  | [a, b, c, d] =>
    if a = q ∧ b = q ∧ c = q then if d = q then some ([q], []) else some ([], [d]) else none
  | [a, b, c] => if a = q ∧ b = q ∧ c = q then some ([], []) else none
  | _ => none

/-- The text after a backslash that hides the line end and all white space after it. -/
def afterHiddenNewline? (cs : List Char) : Option (List Char) :=
  (afterNewline? (skipSpace cs)).map skipSpaceLines

/-- A multi-line string in double quotes, from behind its opening quotes. -/
def scanMultiBasic? : (fuel : Nat) → List Char → Option (List Char × List Char)
  | 0, _ => none
  | _ + 1, [] => none
  | fuel + 1, '\\' :: cs =>
    match afterHiddenNewline? cs with
    | some cs => scanMultiBasic? fuel cs
    | none => do
      let (c, cs) ← scanEscape? cs
      let (s, rest) ← scanMultiBasic? fuel cs
      return (c :: s, rest)
  | fuel + 1, c :: cs =>
    match closingRun? '\"' (c :: cs), afterNewline? (c :: cs) with
    | some found, _ => some found
    | none, some r => (scanMultiBasic? fuel r).map fun (s, rest) => ('\n' :: s, rest)
    | none, none =>
      if isPrintable c then (scanMultiBasic? fuel cs).map fun (s, rest) => (c :: s, rest) else none

/-- A multi-line string in single quotes, from behind its opening quotes. -/
def scanMultiLiteral? : (fuel : Nat) → List Char → Option (List Char × List Char)
  | 0, _ => none
  | _ + 1, [] => none
  | fuel + 1, c :: cs =>
    match closingRun? '\'' (c :: cs), afterNewline? (c :: cs) with
    | some found, _ => some found
    | none, some r => (scanMultiLiteral? fuel r).map fun (s, rest) => ('\n' :: s, rest)
    | none, none =>
      if isPrintable c then (scanMultiLiteral? fuel cs).map fun (s, rest) => (c :: s, rest)
      else none

/-- A text without the line end that may follow the opening quotes of a multi-line string. -/
def skipNewline (cs : List Char) : List Char := (afterNewline? cs).getD cs

/-- A string of any of the four kinds. -/
def scanString? (cs : List Char) : Option (List Char × List Char) :=
  match cs with
  | '\"' :: '\"' :: '\"' :: r => scanMultiBasic? (r.length + 1) (skipNewline r)
  | '\'' :: '\'' :: '\'' :: r => scanMultiLiteral? (r.length + 1) (skipNewline r)
  | '\"' :: r => scanBasic? (r.length + 1) r
  | '\'' :: r => scanLiteral? r
  | _ => none

/-! ## Digits -/

/-- Digits of a base with single underscores between them, at least one, as a number with its count
of digits, and the rest. -/
def scanUnderscored? (isDigit : Char → Bool) (base : Nat) :
    (count value : Nat) → List Char → Option ((Nat × Nat) × List Char)
  | 0, v, c :: cs =>
    if isDigit c then scanUnderscored? isDigit base 1 (v * base + (hexValue? c).getD 0) cs else none
  | 0, _, [] => none
  | n + 1, v, '_' :: c :: cs =>
    if isDigit c then
      scanUnderscored? isDigit base (n + 2) (v * base + (hexValue? c).getD 0) cs
    else none
  | _ + 1, _, ['_'] => none
  | n + 1, v, c :: cs =>
    if isDigit c then scanUnderscored? isDigit base (n + 2) (v * base + (hexValue? c).getD 0) cs
    else some ((v, n + 1), c :: cs)
  | n + 1, v, [] => some ((v, n + 1), [])

/-- Decimal digits. -/
def scanDecimal? (value : Nat) (cs : List Char) : Option ((Nat × Nat) × List Char) :=
  scanUnderscored? Char.isDigit 10 0 value cs

/-- The sign in front of a number. -/
def scanSign : List Char → Bool × List Char
  | '-' :: cs => (true, cs)
  | '+' :: cs => (false, cs)
  | cs => (false, cs)

/-- A whole number without a superfluous zero in front. -/
def scanWhole? : List Char → Option (Nat × List Char)
  | '0' :: cs => some (0, cs)
  | cs => (scanDecimal? 0 cs).map fun ((v, _), r) => (v, r)

/-! ## Numbers -/

/-- An integer that fits in 64 bits. -/
def fits? (n : Int) : Option Int :=
  if -(Decimal.twoTo 63 : Int) ≤ n ∧ n < Decimal.twoTo 63 then some n else none

/-- A digit of base sixteen. -/
def isHexDigit (c : Char) : Bool := (hexValue? c).isSome

/-- A digit of base eight. -/
def isOctalDigit (c : Char) : Bool := '0' ≤ c && c ≤ '7'

/-- A digit of base two. -/
def isBinaryDigit (c : Char) : Bool := c == '0' || c == '1'

/-- An integer: hexadecimal, octal and binary ones have a mark and no sign. -/
def scanInteger? (cs : List Char) : Option (Int × List Char) :=
  let marked (isDigit : Char → Bool) (base : Nat) (r : List Char) := do
    let ((v, _), r) ← scanUnderscored? isDigit base 0 0 r
    let n ← fits? v
    return (n, r)
  match cs with
  | '0' :: 'x' :: r => marked isHexDigit 16 r
  | '0' :: 'o' :: r => marked isOctalDigit 8 r
  | '0' :: 'b' :: r => marked isBinaryDigit 2 r
  | cs => do
    let (negative, r) := scanSign cs
    let (v, r) ← scanWhole? r
    let n ← fits? (if negative then -(v : Int) else v)
    return (n, r)

/-- The digits after a point, appended to the number before it, with their count. -/
def scanFraction? (whole : Nat) : List Char → Option ((Nat × Nat) × List Char)
  | '.' :: cs => scanDecimal? whole cs
  | _ => none

/-- An exponent, from its mark. -/
def scanExponent? : List Char → Option (Int × List Char)
  | c :: cs =>
    if c = 'e' ∨ c = 'E' then
      let (negative, r) := scanSign cs
      (scanDecimal? 0 r).map fun ((v, _), r) => (if negative then -(v : Int) else v, r)
    else none
  | [] => none

/-- The magnitude of a float with a point, an exponent, or both. -/
def scanMagnitude? (cs : List Char) : Option (Decimal.Scientific × List Char) := do
  let (whole, r) ← scanWhole? cs
  match r with
  | '.' :: _ =>
    let ((v, places), r) ← scanFraction? whole r
    match r with
    | c :: _ =>
      if c = 'e' ∨ c = 'E' then
        let (e, r) ← scanExponent? r
        return (⟨v, e - places⟩, r)
      else return (⟨v, -places⟩, r)
    | [] => return (⟨v, -places⟩, [])
  | r =>
    let (e, r) ← scanExponent? r
    return (⟨whole, e⟩, r)

/-- A float with its sign. -/
def withSign (negative : Bool) (x : Float) : Float := if negative then -x else x

/-- A float: a decimal, an infinity, or what is not a number. A positive decimal too large for a
float is refused. -/
def scanFloat? (cs : List Char) : Option (Float × List Char) :=
  let (negative, r) := scanSign cs
  match r with
  | 'i' :: 'n' :: 'f' :: r => some (withSign negative (1 / 0), r)
  | 'n' :: 'a' :: 'n' :: r => some (withSign negative (0 / 0), r)
  | r => do
    let (d, r) ← scanMagnitude? r
    let x := withSign negative d.toFloat
    if x.isInf ∧ ¬negative then none else some (x, r)

/-! ## Dates and times -/

/-- A number of exactly `n` digits. -/
def scanFixed? : (n : Nat) → (value : Nat) → List Char → Option (Nat × List Char)
  | 0, v, cs => some (v, cs)
  | n + 1, v, c :: cs => if c.isDigit then scanFixed? n (v * 10 + (c.toNat - 48)) cs else none
  | _ + 1, _, [] => none

/-- A given character. -/
def expect? (c : Char) : List Char → Option (List Char)
  | d :: cs => if d = c then some cs else none
  | [] => none

/-- The days of a month. -/
def daysIn (year month : Nat) : Nat :=
  if month = 2 then if year % 4 = 0 ∧ (year % 100 ≠ 0 ∨ year % 400 = 0) then 29 else 28
  else if month = 4 ∨ month = 6 ∨ month = 9 ∨ month = 11 then 30
  else 31

/-- The text after a date that exists. -/
def afterDate? (cs : List Char) : Option (List Char) := do
  let (year, cs) ← scanFixed? 4 0 cs
  let cs ← expect? '-' cs
  let (month, cs) ← scanFixed? 2 0 cs
  let cs ← expect? '-' cs
  let (day, cs) ← scanFixed? 2 0 cs
  if 1 ≤ month ∧ month ≤ 12 ∧ 1 ≤ day ∧ day ≤ daysIn year month then some cs else none

/-- The text after a fraction of a second, if there is one. -/
def afterSecondFraction? : List Char → Option (List Char)
  | '.' :: cs =>
    if (cs.takeWhile Char.isDigit).isEmpty then none else some (cs.dropWhile Char.isDigit)
  | cs => some cs

/-- The text after a time of day. -/
def afterTime? (cs : List Char) : Option (List Char) := do
  let (hour, cs) ← scanFixed? 2 0 cs
  let cs ← expect? ':' cs
  let (minute, cs) ← scanFixed? 2 0 cs
  let cs ← expect? ':' cs
  let (second, cs) ← scanFixed? 2 0 cs
  if hour ≤ 23 ∧ minute ≤ 59 ∧ second ≤ 60 then afterSecondFraction? cs else none

/-- The text after an offset from universal time, if there is one. -/
def afterOffset? : List Char → Option (List Char)
  | 'Z' :: cs => some cs
  | 'z' :: cs => some cs
  | c :: cs =>
    if c = '+' ∨ c = '-' then do
      let (hour, cs) ← scanFixed? 2 0 cs
      let cs ← expect? ':' cs
      let (minute, cs) ← scanFixed? 2 0 cs
      if hour ≤ 23 ∧ minute ≤ 59 then some cs else none
    else some (c :: cs)
  | [] => some []

/-- The text after a date and, if a mark and digits follow, a time of day with its offset. -/
def afterDatetime? (cs : List Char) : Option (List Char) := do
  let cs ← afterDate? cs
  match cs with
  | m :: d :: r =>
    if m = 'T' ∨ m = 't' ∨ (m = ' ' ∧ d.isDigit) then (afterTime? (d :: r)).bind afterOffset?
    else some (m :: d :: r)
  | cs => some cs

/-- A date, a time or both, as spelled. -/
def scanDatetime? (cs : List Char) : Option (String × List Char) :=
  match (afterDatetime? cs).or (afterTime? cs) with
  | some rest => some (String.ofList (cs.take (cs.length - rest.length)), rest)
  | none => none

end MarkdownIndex.Toml
