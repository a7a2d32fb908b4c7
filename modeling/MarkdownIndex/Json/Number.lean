import MarkdownIndex.Decimal.Power

/-!
# Numbers of a JSON text

A number without fraction and exponent that fits in 64 bits is an integer; every other number is a
64-bit float.

* `Number` — the two kinds of number.
* `Literal` — a number as it is spelled.
* `Literal.value?` — the number that a spelling stands for. A float is computed from as many
  leading digits as fit in 64 bits and one division or multiplication by a power of ten; a
  magnitude beyond the floats has no value.
-/

namespace MarkdownIndex.Json

/-! ## Numbers -/

/-- A number: an integer between `-2^63` and `2^64 - 1`, or a float. -/
inductive Number where
  /-- an integer -/
  | int (n : Int)
  /-- a float -/
  | float (x : Float)
deriving Inhabited

/-- A natural number of at most 64 bits, rounded to a 64-bit float. -/
def floatOfNat (n : Nat) : Float :=
  n.toUInt64.toFloat

/-- The number as a 64-bit float. -/
def Number.toFloat : Number → Float
  | .int n => if 0 ≤ n then floatOfNat n.toNat else -(floatOfNat n.natAbs)
  | .float x => x

/-- A 64-bit float rounded to the nearest 32-bit one, halves to an even last bit. -/
def narrow (x : Float) : Float32 :=
  .ofModel (.pack (match x.toModel.unpack with
    | .finite sign mantissa exponent _ => .round .binary32 sign mantissa exponent
    | special => special))

/-- The number as a 32-bit float; an integer is rounded once. -/
def Number.toFloat32 : Number → Float32
  | .int n => if 0 ≤ n then n.toNat.toUInt64.toFloat32 else -(n.natAbs.toUInt64.toFloat32)
  | .float x => narrow x

/-! ## Spellings -/

/-- A number as it is spelled; digits are numbers below ten. -/
structure Literal where
  /-- a minus sign comes first -/
  negative : Bool
  /-- digits before the point -/
  whole : List Nat
  /-- digits after the point, if there is one -/
  fraction : List Nat
  /-- the sign (true for minus) and digits of the exponent, if there is one -/
  exponent : Option (Bool × List Nat)
deriving DecidableEq, Repr

/-- The greatest significand that is kept. -/
def significandLimit : Nat := Decimal.twoTo 64 - 1

/-- The greatest exponent that is kept. -/
def exponentLimit : Nat := Decimal.twoTo 31 - 1

/-- Append digits to a number as long as it stays within a limit; the digits left over begin with
the one that would have gone beyond it. -/
def appendDigits (limit : Nat) (n : Nat) : List Nat → Nat × List Nat
  | [] => (n, [])
  | d :: ds => if n * 10 + d ≤ limit then appendDigits limit (n * 10 + d) ds else (n, d :: ds)

/-- The float nearest to a power of ten with a natural exponent. -/
def powerOfTen (k : Nat) : Float :=
  Float.ofScientific 1 false k

/-- A float divided by a power of ten, in steps that stay within the floats. -/
def scaleDown (x : Float) (k : Nat) : Float :=
  if k ≤ 308 then x / powerOfTen k
  else if x == 0 then x
  else scaleDown (x / powerOfTen 308) (k - 308)
termination_by k

/-- A float times a power of ten; none if the product is infinite. -/
def scale? (x : Float) (k : Int) : Option Float :=
  if k < 0 then some (scaleDown x k.natAbs)
  else if k ≤ 308 then
    let y := x * powerOfTen k.toNat
    if y.isInf then none else some y
  else if x == 0 then some x
  else none

/-- A number with a minus sign in front, if wanted. -/
def signed (negative : Bool) (x : Float) : Float :=
  if negative then -x else x

namespace Literal

/-- The value of an integer spelling whose digits all fit in 64 bits. Minus zero and magnitudes
below `-2^63` are floats. -/
def integerValue (negative : Bool) (n : Nat) : Number :=
  if negative then
    if 0 < n ∧ n ≤ Decimal.twoTo 63 then .int (-(n : Int)) else .float (-(floatOfNat n))
  else .int n

/-- The float with a significand and a power of ten, before the spelled exponent is applied. -/
def floatValue? (negative : Bool) (significand : Nat) (power : Int) :
    Option (Bool × List Nat) → Option Number
  | none => (scale? (floatOfNat significand) power).map fun x => .float (signed negative x)
  | some (down, ds) =>
    let (e, beyond) := appendDigits exponentLimit 0 ds
    if beyond.isEmpty then
      let total := if down then power - e else power + e
      (scale? (floatOfNat significand) total).map fun x => .float (signed negative x)
    else if significand ≠ 0 ∧ ¬down then none
    else some (.float (signed negative 0))

/-- The number that a spelling stands for; none beyond the floats. -/
def value? (l : Literal) : Option Number :=
  let (n, skipped) := appendDigits significandLimit 0 l.whole
  if skipped.isEmpty ∧ l.fraction.isEmpty ∧ l.exponent.isNone then
    some (integerValue l.negative n)
  else
    let (m, rest) := appendDigits significandLimit n l.fraction
    let power : Int := skipped.length - (l.fraction.length - rest.length : Nat)
    floatValue? l.negative m power l.exponent

end Literal

end MarkdownIndex.Json
