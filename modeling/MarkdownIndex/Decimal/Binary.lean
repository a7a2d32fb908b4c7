import MarkdownIndex.Decimal.Power

/-!
# Binary numbers: what the bits of a float stand for

A float is read as an exact number `m · 2^q`, so that everything said about its decimal text is
said in natural numbers.

* `BinaryFormat` — the widths of the two bit fields; `double` and `single` are the formats in use.
* `Reading` — the outcome: not a number, an infinity, or an exact finite value with its sign.
* `BinaryFormat.read` — the reading of a bit pattern.
-/

namespace MarkdownIndex.Decimal

/-- The widths of the fields of a binary float: a sign, an exponent, a fraction. -/
structure BinaryFormat where
  /-- bits of the fraction -/
  fractionBits : Nat
  /-- bits of the exponent -/
  exponentBits : Nat
deriving DecidableEq, Repr

/-- The format of 64 bits. -/
def double : BinaryFormat := ⟨52, 11⟩

/-- The format of 32 bits. -/
def single : BinaryFormat := ⟨23, 8⟩

/-- A finite value `mantissa · 2^exponent` with the facts that decide which reals round to it. -/
structure Finite where
  /-- the sign bit is set -/
  negative : Bool
  /-- the integer factor -/
  mantissa : Nat
  /-- the power of two -/
  exponent : Int
  /-- the next smaller magnitude is only half as far away as the next larger one -/
  narrowBelow : Bool
deriving DecidableEq, Repr

/-- What a bit pattern stands for. -/
inductive Reading where
  /-- not a number -/
  | notNumber
  /-- an infinity; the flag is its sign bit -/
  | infinite (negative : Bool)
  /-- a finite value -/
  | finite (value : Finite)
deriving DecidableEq, Repr

namespace BinaryFormat

/-- The exponent that a finite value has when its exponent field is zero or one. -/
def leastExponent (f : BinaryFormat) : Int :=
  2 - twoTo (f.exponentBits - 1) - f.fractionBits

/-- The reading of a bit pattern. -/
def read (f : BinaryFormat) (bits : Nat) : Reading :=
  let fraction := bits % twoTo f.fractionBits
  let field := bits / twoTo f.fractionBits % twoTo f.exponentBits
  let negative := bits / twoTo (f.fractionBits + f.exponentBits) % 2 == 1
  if field = twoTo f.exponentBits - 1 then
    if fraction = 0 then .infinite negative else .notNumber
  else if field = 0 then
    .finite ⟨negative, fraction, f.leastExponent, false⟩
  else
    .finite ⟨negative, twoTo f.fractionBits + fraction, f.leastExponent + (field - 1),
      fraction == 0 && 1 < field⟩

end BinaryFormat

end MarkdownIndex.Decimal
