import Mathlib.Tactic.Common
import Mathlib.Tactic.Ring
import MarkdownIndex.Decimal.Layout

/-!
# Shortest decimals are not much larger than their floats

The search for a shortest decimal starts on a grid that is coarser than the float and goes down from
there. What it finds is next to the float on its grid, so its first digit stands no higher than that
first grid says.

* `lt_tenTo_digitCount`, `tenTo_digitCount_le`, `digitCount_le` — a number between powers of ten.
* `Ratio.floorAt_le`, `Ratio.floorAt_pos` — how often a grid fits into a number.
* `Ratio.topExponent_le` — the first grid of a bounded number.
* `Neighbourhood.search_spec` — what the search ends with.
* `Finite.magnitude_shortest_le` — the shortest decimal of a float.
-/

namespace MarkdownIndex.Decimal

/-! ## Numbers of digits -/

theorem tenTo_mono {m n : Nat} (h : m ≤ n) : tenTo m ≤ tenTo n :=
  Nat.pow_le_pow_right (by decide) h

theorem lt_tenTo_digitCount (n : Nat) : n < tenTo (digitCount n) := by
  induction n using Nat.strongRecOn with
  | ind n ih =>
    rw [digitCount]
    split_ifs with h
    · rw [h]
      exact tenTo_pos 0
    · have hdiv := ih (n / 10) (by omega)
      rw [tenTo_succ]
      omega

theorem tenTo_digitCount_le {n : Nat} (hn : n ≠ 0) : tenTo (digitCount n - 1) ≤ n := by
  induction n using Nat.strongRecOn with
  | ind n ih =>
    rw [digitCount, if_neg hn, Nat.add_sub_cancel]
    rcases Nat.eq_zero_or_pos (n / 10) with h | h
    · rw [h, digitCount, if_pos rfl]
      exact Nat.pos_of_ne_zero hn
    · have hdiv := ih (n / 10) (by omega) h.ne'
      have hsucc : digitCount (n / 10) = digitCount (n / 10) - 1 + 1 := by
        rw [digitCount, if_neg h.ne', Nat.add_sub_cancel]
      rw [hsucc, tenTo_succ]
      omega

theorem digitCount_ne_zero {n : Nat} (hn : n ≠ 0) : digitCount n ≠ 0 := by
  rw [digitCount, if_neg hn]
  exact Nat.succ_ne_zero _

theorem digitCount_le {n k : Nat} (h : n < tenTo k) : digitCount n ≤ k := by
  induction k generalizing n with
  | zero =>
    obtain rfl : n = 0 := by
      rw [tenTo_zero] at h
      omega
    rw [digitCount, if_pos rfl]
  | succ k ih =>
    rw [digitCount]
    split_ifs with hn
    · exact Nat.zero_le _
    · rw [tenTo_succ] at h
      exact Nat.succ_le_succ (ih (by omega))

theorem length_digits_le {n k : Nat} (h : n < tenTo (k + 1)) : (digits n).length ≤ k + 1 :=
  (Nat.length_toDigits_le_iff (by decide) k.succ_pos).mpr h

/-! ## Grids -/

namespace Ratio

variable {r : Ratio} {k : Int}

/-- The top exponent of a number that is at least one. -/
theorem topExponent_of_le (h : r.den ≤ r.num) : r.topExponent = digitCount (r.num / r.den) :=
  if_pos h

theorem topExponent_of_lt (h : r.num < r.den) :
    r.topExponent = 1 - (digitCount (r.den / r.num) : Int) :=
  if_neg (Nat.not_le.mpr h)

/-- The first grid of a number that is bounded by a power of ten. -/
theorem topExponent_le {n : Nat} (hd : 0 < r.den) (h : r.num < tenTo (n + 1) * r.den) :
    r.topExponent ≤ n + 1 := by
  rcases Nat.lt_or_ge r.num r.den with hlt | hge
  · rw [topExponent_of_lt hlt]
    omega
  · rw [topExponent_of_le hge]
    have hcount := digitCount_le ((Nat.div_lt_iff_lt_mul hd).mpr h)
    omega

/-- On a grid below the top exponent, a number counts at most the power of ten between the two. -/
theorem floorAt_le (hd : 0 < r.den) (hk : k ≤ r.topExponent) :
    r.floorAt k ≤ tenTo (r.topExponent - k).toNat := by
  rw [floorAt]
  rcases Nat.lt_or_ge r.num r.den with hlt | hge
  · rw [topExponent_of_lt hlt] at hk ⊢
    split_ifs with h
    · rw [Nat.div_eq_of_lt (Nat.lt_of_lt_of_le hlt (Nat.le_mul_of_pos_right _ (tenTo_pos _)))]
      exact Nat.zero_le _
    · refine Nat.div_le_of_le_mul ?_
      rcases Nat.eq_zero_or_pos r.num with hzero | hpos
      · rw [hzero, Nat.zero_mul]
        exact Nat.zero_le _
      · have hq : r.den / r.num ≠ 0 := (Nat.div_pos hlt.le hpos).ne'
        have hcount := digitCount_ne_zero hq
        have hlow : tenTo (digitCount (r.den / r.num) - 1) * r.num ≤ r.den :=
          (Nat.mul_le_mul_right _ (tenTo_digitCount_le hq)).trans (Nat.div_mul_le_self _ _)
        generalize digitCount (r.den / r.num) = d at hk hcount hlow ⊢
        generalize hj : (-k).toNat = j
        have hsplit : j = d - 1 + (1 - (d : Int) - k).toNat := by omega
        calc r.num * tenTo j
            = tenTo (d - 1) * r.num * tenTo (1 - (d : Int) - k).toNat := by
              conv_lhs => rw [hsplit]
              rw [tenTo_add]
              ring
          _ ≤ r.den * tenTo (1 - (d : Int) - k).toNat := Nat.mul_le_mul_right _ hlow
  · rw [topExponent_of_le hge] at hk ⊢
    have hq := lt_tenTo_digitCount (r.num / r.den)
    generalize digitCount (r.num / r.den) = d at hk hq ⊢
    split_ifs with h
    · rw [← Nat.div_div_eq_div_mul]
      refine Nat.div_le_of_le_mul ?_
      rw [← tenTo_add, show k.toNat + ((d : Int) - k).toNat = d by omega]
      exact hq.le
    · refine Nat.div_le_of_le_mul ?_
      rw [show ((d : Int) - k).toNat = d + (-k).toNat by omega, tenTo_add, ← Nat.mul_assoc]
      rw [Nat.div_lt_iff_lt_mul hd, Nat.mul_comm] at hq
      exact Nat.mul_le_mul_right _ hq.le

/-- On a grid below the top one, a number counts at least one. -/
theorem floorAt_pos (hd : 0 < r.den) (hn : 0 < r.num) (hk : k < r.topExponent) :
    0 < r.floorAt k := by
  rw [floorAt]
  rcases Nat.lt_or_ge r.num r.den with hlt | hge
  · rw [topExponent_of_lt hlt] at hk
    have hq := lt_tenTo_digitCount (r.den / r.num)
    have hne : r.den / r.num ≠ 0 := (Nat.div_pos hlt.le hn).ne'
    have hcount := digitCount_ne_zero hne
    generalize digitCount (r.den / r.num) = d at hk hq hcount
    rw [if_neg (by omega)]
    refine Nat.div_pos ?_ hd
    rw [Nat.div_lt_iff_lt_mul hn, Nat.mul_comm] at hq
    exact hq.le.trans (Nat.mul_le_mul_left _ (tenTo_mono (by omega)))
  · rw [topExponent_of_le hge] at hk
    have hq := tenTo_digitCount_le (Nat.div_pos hge hd).ne'
    generalize digitCount (r.num / r.den) = d at hk hq
    split_ifs with h
    · rw [← Nat.div_div_eq_div_mul]
      exact Nat.div_pos ((tenTo_mono (by omega)).trans hq) (tenTo_pos _)
    · exact Nat.div_pos (hge.trans (Nat.le_mul_of_pos_right _ (tenTo_pos _))) hd

/-- Nothing on a grid is not more than nothing of the number. -/
theorem compareDecimal_zero (hn : 0 < r.num) : r.compareDecimal 0 k = .lt := by
  rw [compareDecimal]
  split_ifs with h
  · rw [Nat.zero_mul, Nat.zero_mul]
    exact Nat.compare_eq_lt.mpr hn
  · rw [Nat.zero_mul]
    exact Nat.compare_eq_lt.mpr (Nat.mul_pos hn (tenTo_pos _))

end Ratio

/-! ## The search -/

namespace Neighbourhood

variable {v : Neighbourhood} {c : Nat} {k : Int}

/-- A decimal on a grid is one of the two neighbours of the value, and not zero. -/
theorem onGrid_eq_some (hlow : 0 < v.low.num) (hhigh : 0 < v.high.num)
    (h : v.onGrid k = some c) :
    c ≠ 0 ∧ c ≤ v.value.floorAt k + 1 := by
  have hzero : v.has 0 k = false := by
    rw [has, Ratio.compareDecimal_zero hlow, Ratio.compareDecimal_zero hhigh]
  have hhas : v.has c k = true ∧ c ≤ v.value.floorAt k + 1 := by
    rw [onGrid] at h
    generalize v.value.floorAt k = n at h ⊢
    split at h
    · cases h
    · rename_i hfloor _
      obtain rfl := Option.some.inj h
      exact ⟨hfloor, Nat.le_succ _⟩
    · rename_i hnext
      obtain rfl := Option.some.inj h
      exact ⟨hnext, Nat.le_refl _⟩
    · rename_i hfloor hnext
      split at h
      · obtain rfl := Option.some.inj h
        exact ⟨hfloor, Nat.le_succ _⟩
      · obtain rfl := Option.some.inj h
        exact ⟨hnext, Nat.le_refl _⟩
      · split_ifs at h
        · obtain rfl := Option.some.inj h
          exact ⟨hfloor, Nat.le_succ _⟩
        · obtain rfl := Option.some.inj h
          exact ⟨hnext, Nat.le_refl _⟩
  refine ⟨?_, hhas.2⟩
  rintro rfl
  rw [hzero] at hhas
  cases hhas.1

/-- The search ends on some grid with a neighbour of the value there. -/
theorem search_spec (hlow : 0 < v.low.num) (hhigh : 0 < v.high.num) (hd : 0 < v.value.den)
    (hn : 0 < v.value.num) :
    ∀ (steps : Nat) (k : Int), k - steps < v.value.topExponent →
      (v.search steps k).coefficient ≠ 0 ∧ (v.search steps k).exponent ≤ k ∧
        (v.search steps k).coefficient ≤ v.value.floorAt (v.search steps k).exponent + 1 := by
  intro steps
  induction steps with
  | zero =>
    intro k hk
    have hpos := Ratio.floorAt_pos hd hn (k := k) (by omega)
    exact ⟨hpos.ne', Int.le_refl k, Nat.le_succ _⟩
  | succ steps ih =>
    intro k hk
    rw [search]
    cases h : v.onGrid k with
    | some c =>
      obtain ⟨hne, hle⟩ := onGrid_eq_some hlow hhigh h
      exact ⟨hne, Int.le_refl k, hle⟩
    | none =>
      obtain ⟨hne, hexponent, hle⟩ := ih (k - 1) (by omega)
      exact ⟨hne, by dsimp only; omega, hle⟩

end Neighbourhood

/-! ## Shortest decimals -/

namespace Finite

theorem ofBinary_pos {m : Nat} (hm : 0 < m) (q : Int) :
    0 < (Ratio.ofBinary m q).num ∧ 0 < (Ratio.ofBinary m q).den := by
  rw [Ratio.ofBinary]
  split_ifs
  · exact ⟨Nat.mul_pos hm (twoTo_pos _), Nat.one_pos⟩
  · exact ⟨hm, twoTo_pos _⟩

/-- **A shortest decimal is no larger than the top exponent of its float says,** and it is zero for
a zero only. -/
theorem magnitude_shortest_le (x : Finite) :
    x.shortest = ⟨0, 0⟩ ∨ x.shortest.coefficient ≠ 0 ∧
      x.shortest.magnitude ≤ x.neighbourhood.value.topExponent := by
  rw [shortest]
  split_ifs with hm
  · exact Or.inl rfl
  · have hvalue := ofBinary_pos (m := 4 * x.mantissa) (by omega) (x.exponent - 2)
    have hlow := ofBinary_pos (m := 4 * x.mantissa - if x.narrowBelow then 1 else 2)
      (by split_ifs <;> omega) (x.exponent - 2)
    have hhigh := ofBinary_pos (m := 4 * x.mantissa + 2) (by omega) (x.exponent - 2)
    obtain ⟨hne, hexponent, hle⟩ := Neighbourhood.search_spec (v := x.neighbourhood) hlow.1 hhigh.1
      hvalue.2 hvalue.1 20 x.neighbourhood.value.topExponent (by omega)
    dsimp only
    generalize x.neighbourhood.search 20 x.neighbourhood.value.topExponent = d at *
    refine Or.inr ⟨hne, ?_⟩
    have hfloor := Ratio.floorAt_le (r := x.neighbourhood.value) hvalue.2 hexponent
    generalize hj : (x.neighbourhood.value.topExponent - d.exponent).toNat = j at hfloor
    have hlt : d.coefficient < tenTo (j + 1) := by
      have hpos := tenTo_pos j
      rw [tenTo_succ]
      omega
    have hlength := length_digits_le hlt
    rw [Scientific.magnitude]
    omega

/-- The first grid of a float of at most 53 bits that is counted in units of at most `2^j`. -/
theorem topExponent_le {x : Finite} {j n : Nat} (hm : x.mantissa < 2 ^ 53) (he : x.exponent ≤ j)
    (hn : 2 ^ (53 + j) ≤ tenTo (n + 1)) : x.neighbourhood.value.topExponent ≤ n + 1 := by
  have hvalue : x.neighbourhood.value = .ofBinary (4 * x.mantissa) (x.exponent - 2) := rfl
  rw [hvalue]
  have hpow : 2 ^ (53 + j) = 2 ^ 53 * 2 ^ j := Nat.pow_add 2 53 j
  have hj : 1 ≤ 2 ^ j := Nat.one_le_two_pow
  refine Ratio.topExponent_le ?_ ?_
  · rw [Ratio.ofBinary]
    split_ifs
    · exact Nat.one_pos
    · exact twoTo_pos _
  · rw [Ratio.ofBinary]
    split_ifs with h
    · have hsplit : 4 * twoTo (x.exponent - 2).toNat ≤ 2 ^ j := by
        rw [show 4 = twoTo 2 from rfl, ← twoTo_add]
        exact Nat.pow_le_pow_right (by decide) (by omega)
      calc 4 * x.mantissa * twoTo (x.exponent - 2).toNat
          = x.mantissa * (4 * twoTo (x.exponent - 2).toNat) := by ring
        _ < 2 ^ 53 * 2 ^ j := Nat.mul_lt_mul_of_lt_of_le hm hsplit (Nat.two_pow_pos j)
        _ ≤ tenTo (n + 1) * 1 := by omega
    · rcases (show x.exponent = 1 ∨ x.exponent ≤ 0 by omega) with hone | hzero
      · have hone' : 2 ≤ 2 ^ j := Nat.le_pow (by omega)
        have hden : twoTo (-(x.exponent - 2)).toNat = 2 := by
          rw [hone]
          rfl
        rw [hden]
        show 4 * x.mantissa < tenTo (n + 1) * 2
        omega
      · have hden : twoTo 2 ≤ twoTo (-(x.exponent - 2)).toNat :=
          Nat.pow_le_pow_right (by decide) (by omega)
        calc 4 * x.mantissa
            < twoTo 2 * 2 ^ 53 := Nat.mul_lt_mul_of_pos_left hm (by decide)
          _ ≤ twoTo 2 * tenTo (n + 1) := Nat.mul_le_mul_left _ (by omega)
          _ ≤ tenTo (n + 1) * twoTo (-(x.exponent - 2)).toNat := by
            rw [Nat.mul_comm]
            exact Nat.mul_le_mul_left _ hden

end Finite

end MarkdownIndex.Decimal
