import MarkdownIndex.Decimal.Shortest

/-!
# Layouts: how a decimal is written

The digits of a number are one thing and their layout another. A `Layout` is a record of the
decisions that one output makes; the values of that type stand beside the outputs they belong to.

* `positional`, `exponential` — the two notations of a decimal.
* `Layout.write` — the text of a reading under a layout, from its shortest decimal.
* `fixed` — the text with a given number of places. The exact value is rounded, and a value half
  way between two texts goes to the one with an even last digit.
-/

namespace MarkdownIndex.Decimal

/-! ## Notations -/

/-- The digits of a natural number in base ten. -/
def digits (n : Nat) : List Char :=
  Nat.toDigits 10 n

/-- `n` zeros. -/
def zeros (n : Nat) : List Char :=
  List.replicate n '0'

/-- Positional notation: the digits of a decimal around its point. A whole number is followed by
`whole`. -/
def positional (whole : List Char) (d : Scientific) : List Char :=
  let ds := digits d.coefficient
  if 0 ≤ d.exponent then ds ++ zeros d.exponent.toNat ++ whole
  else
    let places := (-d.exponent).toNat
    let padded := zeros (places + 1 - ds.length) ++ ds
    padded.take (padded.length - places) ++ '.' :: padded.drop (padded.length - places)

/-- The exponent of a decimal when one digit stands before its point. -/
def Scientific.magnitude (d : Scientific) : Int :=
  d.exponent + (digits d.coefficient).length - 1

/-- Exponential notation: one digit before the point, and a signed exponent. -/
def exponential (plus : List Char) (d : Scientific) : List Char :=
  let mantissa := match digits d.coefficient with
    | [] => []
    | [c] => [c]
    | c :: cs => c :: '.' :: cs
  let e := d.magnitude
  mantissa ++ 'e' :: ((if e < 0 then ['-'] else plus) ++ digits e.natAbs)

/-! ## Layouts -/

/-- The decisions of an output that shows the shortest decimal of a float. -/
structure Layout where
  /-- the exponents that are written positionally; none means all -/
  positionalRange : Option (Int × Int)
  /-- what follows a whole number in positional notation -/
  whole : List Char
  /-- the sign of an exponent that is not negative -/
  exponentPlus : List Char
  /-- text for what is not a number -/
  notNumber : String
  /-- text for a positive infinity; the negative one has a minus sign before it -/
  infinity : String
deriving DecidableEq, Repr

/-- A text with a minus sign in front, if wanted. -/
def withSign (negative : Bool) (cs : List Char) : List Char :=
  if negative then '-' :: cs else cs

namespace Layout

/-- The magnitude of a decimal under a layout. -/
def magnitude (l : Layout) (d : Scientific) : List Char :=
  match l.positionalRange with
  | none => positional l.whole d
  | some (least, greatest) =>
    if d.coefficient = 0 ∨ (least ≤ d.magnitude ∧ d.magnitude ≤ greatest) then
      positional l.whole d
    else exponential l.exponentPlus d

/-- The text of a reading. -/
def write (l : Layout) : Reading → String
  | .notNumber => l.notNumber
  | .infinite negative => String.ofList (withSign negative l.infinity.toList)
  | .finite x => String.ofList (withSign x.negative (l.magnitude x.shortest))

end Layout

/-! ## Fixed places -/

/-- A rational rounded to a natural number, a half to the even one. -/
def Ratio.round (r : Ratio) : Nat :=
  let whole := r.num / r.den
  match compare (2 * (r.num % r.den)) r.den with
  | .lt => whole
  | .gt => whole + 1
  | .eq => if whole % 2 = 0 then whole else whole + 1

/-- The text of a reading with `places` digits after the point. -/
def fixed (places : Nat) : Reading → String
  | .notNumber => "NaN"
  | .infinite negative => String.ofList (withSign negative "inf".toList)
  | .finite x =>
    let r := Ratio.ofBinary (x.mantissa * tenTo places) x.exponent
    String.ofList (withSign x.negative (positional [] ⟨r.round, -(places : Int)⟩))

end MarkdownIndex.Decimal
