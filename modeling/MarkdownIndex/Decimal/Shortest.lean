import MarkdownIndex.Decimal.Binary

/-!
# Shortest decimals: the fewest digits that read back

The decimal text of a float shows as few digits as identify it: among the decimals that round to
the float, one with the fewest digits, and of those the nearest.

* `Ratio` — a non-negative rational, compared with decimals in natural numbers only.
* `Neighbourhood` — a float with the interval of reals that round to it. The ends belong to it
  when the mantissa is even.
* `Scientific` — a decimal `coefficient · 10^exponent`.
* `shortest` — the search: on coarser grids first, the value's two neighbours on the grid `10^k`
  are tested; if any decimal of the grid lies in the interval, one of the two does.
-/

namespace MarkdownIndex.Decimal

/-! ## Rationals and decimals -/

/-- A non-negative rational number. -/
structure Ratio where
  /-- numerator -/
  num : Nat
  /-- denominator, not zero -/
  den : Nat
deriving DecidableEq, Repr

/-- A decimal `coefficient · 10^exponent`. -/
structure Scientific where
  /-- the digits, as a number -/
  coefficient : Nat
  /-- the power of ten -/
  exponent : Int
deriving DecidableEq, Repr

namespace Ratio

/-- The rational `m · 2^q`. -/
def ofBinary (m : Nat) (q : Int) : Ratio :=
  if 0 ≤ q then ⟨m * twoTo q.toNat, 1⟩ else ⟨m, twoTo (-q).toNat⟩

/-- The largest multiple of `10^k` not above the number, as a multiple. -/
def floorAt (r : Ratio) (k : Int) : Nat :=
  if 0 ≤ k then r.num / (r.den * tenTo k.toNat) else r.num * tenTo (-k).toNat / r.den

/-- How the decimal `c · 10^k` compares with the number. -/
def compareDecimal (r : Ratio) (c : Nat) (k : Int) : Ordering :=
  if 0 ≤ k then compare (c * tenTo k.toNat * r.den) r.num
  else compare (c * r.den) (r.num * tenTo (-k).toNat)

end Ratio

/-- The number of decimal digits of a natural number; zero has none. -/
def digitCount (n : Nat) : Nat :=
  if n = 0 then 0 else digitCount (n / 10) + 1

/-! ## The interval of a float -/

/-- A positive float and the interval of the reals that round to it. -/
structure Neighbourhood where
  /-- the float itself -/
  value : Ratio
  /-- the lower end -/
  low : Ratio
  /-- the upper end -/
  high : Ratio
  /-- the ends round to the float as well -/
  closed : Bool
deriving DecidableEq, Repr

/-- The neighbourhood of a finite float with a mantissa other than zero. The ends lie half way to
the neighbouring floats. -/
def Finite.neighbourhood (x : Finite) : Neighbourhood where
  value := .ofBinary (4 * x.mantissa) (x.exponent - 2)
  low := .ofBinary (4 * x.mantissa - if x.narrowBelow then 1 else 2) (x.exponent - 2)
  high := .ofBinary (4 * x.mantissa + 2) (x.exponent - 2)
  closed := x.mantissa % 2 == 0

/-- The decimal `c · 10^k` rounds to the float. -/
def Neighbourhood.has (v : Neighbourhood) (c : Nat) (k : Int) : Bool :=
  match v.low.compareDecimal c k, v.high.compareDecimal c k with
  | .gt, .lt => true
  | .eq, _ => v.closed
  | _, .eq => v.closed
  | _, _ => false

/-! ## The search -/

/-- The decimal of the grid `10^k` that rounds to the float, the nearer one if there are two; a tie
goes to the even coefficient. -/
def Neighbourhood.onGrid (v : Neighbourhood) (k : Int) : Option Nat :=
  let c := v.value.floorAt k
  match v.has c k, v.has (c + 1) k with
  | false, false => none
  | true, false => some c
  | false, true => some (c + 1)
  | true, true =>
    -- twice the number against the sum of its two neighbours
    match (Ratio.mk (2 * v.value.num) v.value.den).compareDecimal (2 * c + 1) k with
    | .gt => some c
    | .lt => some (c + 1)
    | .eq => some (if c % 2 = 0 then c else c + 1)

/-- The first grid, from `10^k` down over at most `steps` finer ones, that has a decimal of the
float. -/
def Neighbourhood.search (v : Neighbourhood) : (steps : Nat) → (k : Int) → Scientific
  | 0, k => ⟨v.value.floorAt k, k⟩
  | steps + 1, k =>
    match v.onGrid k with
    | some c => ⟨c, k⟩
    | none => v.search steps (k - 1)

/-- An exponent `k` with `10^k` not below the number. -/
def Ratio.topExponent (r : Ratio) : Int :=
  if r.den ≤ r.num then digitCount (r.num / r.den)
  else 1 - (digitCount (r.den / r.num) : Int)

/-- The shortest decimal of the magnitude of a finite float. Seventeen digits always suffice. -/
def Finite.shortest (x : Finite) : Scientific :=
  if x.mantissa = 0 then ⟨0, 0⟩
  else
    let v := x.neighbourhood
    v.search 20 v.value.topExponent

end MarkdownIndex.Decimal
