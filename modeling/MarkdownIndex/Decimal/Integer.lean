import MarkdownIndex.Decimal.Power

/-!
# Reading integers: digits, with a sign in front or without

* `Decimal.natural?` — digits alone, and at least one.
* `Decimal.integer?` — an integer of 64 bits, with either sign.
* `Decimal.word16?` — a number of 16 bits, with a plus sign or without.
-/

namespace MarkdownIndex.Decimal

/-- The number that digits stand for, given the number that the digits before them stand for. -/
def ofDigits (n : Nat) (cs : List Char) : Nat :=
  cs.foldl (fun n c => n * 10 + (c.toNat - 48)) n

/-- The number that a text of digits stands for; none without digits. -/
def natural? : List Char → Option Nat
  | [] => none
  | cs => if cs.all Char.isDigit then some (ofDigits 0 cs) else none

/-- The integer of 64 bits that a text spells. -/
def integer? (cs : List Char) : Option Int :=
  let value? : Option Int := match cs with
    | '-' :: ds => (natural? ds).map fun n => -(n : Int)
    | '+' :: ds => (natural? ds).map fun n => (n : Int)
    | ds => (natural? ds).map fun n => (n : Int)
  value?.bind fun n => if -(twoTo 63 : Int) ≤ n ∧ n < twoTo 63 then some n else none

/-- The number of 16 bits that a text spells. -/
def word16? (cs : List Char) : Option Nat :=
  let value? := match cs with
    | '+' :: ds => natural? ds
    | ds => natural? ds
  value?.bind fun n => if n < twoTo 16 then some n else none

end MarkdownIndex.Decimal
