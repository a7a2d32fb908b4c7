import Mathlib
import MarkdownIndex.Proofs.Decimal.Range

/-!
# The order of floats: numbers on a line

Floats are compared by sign, exponent and mantissa. That this is the order of numbers is due to the
form in which they are stored, where the greater exponent is the greater magnitude.

* `placeOf`, `place` — the place of a float on a line, in units of `2^-1074`; what is infinite is
  behind all the others.
* `Stored`, `Limited`, `Regular` — the form in which magnitudes, finite numbers and numbers at all
  are stored.
* `lt_iff`, `le_iff`, `beq_iff` — a number is less than another if and only if its place is.
-/

namespace MarkdownIndex.Decimal

open Float.Model UnpackedFloat

/-! ## Places -/

/-- The number of units `2^-1074` in a magnitude. -/
def unitsOf (m : Nat) (e : Int) : Nat := m * 2 ^ (e + 1074).toNat

/-- The number of such units behind that of every finite float. -/
def beyond : Nat := 2 ^ 2098

theorem beyond_eq : beyond = 2 ^ 2098 := by rw [beyond]

-- nothing is to be computed with it
attribute [irreducible] beyond

/-- The place of a float on a line, in units of `2^-1074`. -/
def placeOf : UnpackedFloat → Int
  | .infinity s => s.apply beyond
  | .notANumber => 0
  | .zero _ => 0
  | .finite s m e _ => s.apply (unitsOf m e)

/-- The place of a float. -/
def place (x : Float) : Int := placeOf x.toModel.unpack

@[simp] theorem placeOf_zero (s : Sign) : placeOf (.zero s) = 0 := rfl

@[simp] theorem placeOf_notANumber : placeOf .notANumber = 0 := rfl

@[simp] theorem placeOf_infinity (s : Sign) : placeOf (.infinity s) = s.apply beyond := rfl

theorem pow_le_beyond {k : Nat} (h : k ≤ 2098) : 2 ^ k ≤ beyond := by
  rw [beyond_eq]
  generalize 2098 = b at h ⊢
  exact Nat.pow_le_pow_right Nat.two_pos h

theorem beyond_le_pow {k : Nat} (h : 2098 ≤ k) : beyond ≤ 2 ^ k := by
  rw [beyond_eq]
  generalize 2098 = b at h ⊢
  exact Nat.pow_le_pow_right Nat.two_pos h

theorem beyond_pos : 0 < beyond :=
  (Nat.two_pow_pos 0).trans_le (pow_le_beyond (Nat.zero_le 2098))

theorem unitsOf_pos (hm : 0 < m) : 0 < unitsOf m e := Nat.mul_pos hm (Nat.two_pow_pos _)

/-! ## Numbers as they are stored -/

/-- A magnitude as it is stored: with 53 bits, or fewer if the exponent is the least. -/
structure Stored (m : Nat) (e : Int) : Prop where
  /-- there are no more than 53 bits -/
  lt : m < 2 ^ 53
  /-- the exponent is no less than the least -/
  least : -1074 ≤ e
  /-- there are no fewer unless the exponent is the least -/
  full : e = -1074 ∨ 2 ^ 52 ≤ m

/-- A finite number as it is stored. -/
def Limited : UnpackedFloat → Prop
  | .finite _ m e _ => Stored m e ∧ e ≤ 971
  | .zero _ => True
  | _ => False

/-- A number as it is stored. -/
def Regular : UnpackedFloat → Prop
  | .infinity _ => True
  | .notANumber => False
  | u => Limited u

variable {m n : Nat} {e f : Int} {s : Sign} {u v : UnpackedFloat} {x y : Float}

theorem stored_of_unpack {b : BitVec Format.binary64.numBits} {hm : 0 < m}
    (h : UnpackedFloat.unpack Format.binary64 b = .finite s m e hm) : Stored m e ∧ e ≤ 971 := by
  obtain ⟨hlt, hle⟩ := bounds_of_unpack h
  refine ⟨⟨hlt, ?_, ?_⟩, hle⟩
  · rw [UnpackedFloat.unpack] at h
    dsimp only at h
    split_ifs at h with hmax _ hzero
    · obtain ⟨-, -, rfl⟩ := UnpackedFloat.finite.inj h
      rw [hzero]
      decide
    · obtain ⟨-, -, rfl⟩ := UnpackedFloat.finite.inj h
      have hne : (unpackExponent b).toNat ≠ 0 := fun heq => hzero (BitVec.eq_of_toNat_eq heq)
      show -1074 ≤ ((unpackExponent b).toNat : Int) - 1075
      omega
  · rw [UnpackedFloat.unpack] at h
    dsimp only at h
    split_ifs at h with hmax _ hzero
    · obtain ⟨-, -, rfl⟩ := UnpackedFloat.finite.inj h
      rw [hzero]
      exact Or.inl rfl
    · obtain ⟨-, rfl, -⟩ := UnpackedFloat.finite.inj h
      refine Or.inr ?_
      rw [BitVec.toNat_append]
      exact Nat.left_le_or

theorem isNaN_eq_false_iff : x.isNaN = false ↔ x.toModel.unpack ≠ .notANumber := by
  rw [Float.isNaN, Float.Model.isNaN, ne_eq, ← UnpackedFloat.isNaN_iff, Bool.not_eq_true]

/-- Every float that is a number is stored in this form. -/
theorem regular_of_isNaN (h : x.isNaN = false) : Regular x.toModel.unpack := by
  rw [isNaN_eq_false_iff] at h
  cases hx : x.toModel.unpack with
  | infinity s => trivial
  | notANumber => exact absurd hx h
  | zero s => trivial
  | finite s m e hm => exact stored_of_unpack hx

/-- A number is infinite or not. -/
theorem Regular.cases (h : Regular u) : u = .infinity .negative ∨ u = .infinity .positive ∨
    Limited u := by
  cases u with
  | infinity s => cases s <;> simp
  | notANumber => exact h.elim
  | zero s => exact Or.inr (Or.inr h)
  | finite s m e hm => exact Or.inr (Or.inr h)

theorem Stored.unitsOf_lt_pow (h : Stored m e) : unitsOf m e < 2 ^ (53 + (e + 1074).toNat) := by
  rw [Nat.pow_add]
  exact Nat.mul_lt_mul_of_pos_right h.lt (Nat.two_pow_pos _)

theorem Stored.unitsOf_lt (h : Stored m e) (he : e ≤ 971) : unitsOf m e < beyond :=
  h.unitsOf_lt_pow.trans_le (pow_le_beyond (by omega))

/-- The greater exponent is the greater magnitude. -/
theorem Stored.unitsOf_lt_unitsOf (h : Stored m e) (h' : Stored n f) (hef : e < f) :
    unitsOf m e < unitsOf n f := by
  have hle := h.least
  have hfull : 2 ^ 52 ≤ n := h'.full.resolve_left (by omega)
  calc unitsOf m e < 2 ^ (53 + (e + 1074).toNat) := h.unitsOf_lt_pow
    _ ≤ 2 ^ (52 + (f + 1074).toNat) := Nat.pow_le_pow_right Nat.two_pos (by omega)
    _ = 2 ^ 52 * 2 ^ (f + 1074).toNat := Nat.pow_add _ _ _
    _ ≤ unitsOf n f := Nat.mul_le_mul_right _ hfull

theorem Stored.compare_eq (h : Stored m e) (h' : Stored n f) :
    (compare e f).then (compare m n) = compare (unitsOf m e) (unitsOf n f) := by
  rcases lt_trichotomy e f with hef | rfl | hef
  · rw [Int.compare_eq_lt.mpr hef, Nat.compare_eq_lt.mpr (h.unitsOf_lt_unitsOf h' hef)]
    rfl
  · have hpos : 0 < 2 ^ (e + 1074).toNat := Nat.two_pow_pos _
    rw [Int.compare_eq_eq.mpr rfl, Ordering.eq_then, unitsOf, unitsOf]
    rcases lt_trichotomy m n with hmn | rfl | hmn
    · rw [Nat.compare_eq_lt.mpr hmn, Nat.compare_eq_lt.mpr (Nat.mul_lt_mul_of_pos_right hmn hpos)]
    · rw [Nat.compare_eq_eq.mpr rfl, Nat.compare_eq_eq.mpr rfl]
    · rw [Nat.compare_eq_gt.mpr hmn, Nat.compare_eq_gt.mpr (Nat.mul_lt_mul_of_pos_right hmn hpos)]
  · rw [Int.compare_eq_gt.mpr hef, Nat.compare_eq_gt.mpr (h'.unitsOf_lt_unitsOf h hef)]
    rfl

/-! ## Comparing -/

theorem some_lt_eq {a b : Int} (h : a < b) : some Ordering.lt = some (compare a b) :=
  congrArg some (Int.compare_eq_lt.mpr h).symm

theorem some_gt_eq {a b : Int} (h : b < a) : some Ordering.gt = some (compare a b) :=
  congrArg some (Int.compare_eq_gt.mpr h).symm

theorem some_eq_eq (a : Int) : some Ordering.eq = some (compare a a) :=
  congrArg some (Int.compare_eq_eq.mpr rfl).symm

theorem compare_finite {hm : 0 < m} {hn : 0 < n} {s' : Sign} (h : Stored m e) (h' : Stored n f) :
    (UnpackedFloat.finite s m e hm).compare (.finite s' n f hn) =
      some (compare (s.apply (unitsOf m e)) (s'.apply (unitsOf n f))) := by
  have hpos : 0 < unitsOf m e := unitsOf_pos hm
  have hpos' : 0 < unitsOf n f := unitsOf_pos hn
  have hcast : compare (unitsOf m e : Int) (unitsOf n f) =
      (compare e f).then (compare m n) := by
    rw [h.compare_eq h', Int.compare_eq_ite_lt, Nat.compare_eq_ite_lt]
    simp only [Int.ofNat_lt]
  cases s <;> cases s'
  · refine congrArg some ?_
    rw [← hcast, Int.compare_swap, Int.compare_eq_ite_lt, Int.compare_eq_ite_lt]
    simp only [Sign.apply, Int.neg_lt_neg_iff]
  · exact some_lt_eq (by simp only [Sign.apply]; omega)
  · exact some_gt_eq (by simp only [Sign.apply]; omega)
  · exact congrArg some hcast.symm

theorem Limited.natAbs_placeOf_lt (h : Limited u) : (placeOf u).natAbs < beyond := by
  cases u with
  | infinity s => exact h.elim
  | notANumber => exact h.elim
  | zero s => exact beyond_pos
  | finite s m e hm =>
    rw [placeOf, natAbs_apply]
    exact h.1.unitsOf_lt h.2

/-- Only infinite numbers are at the ends. -/
theorem Regular.placeOf_lt (h : Regular u) (hne : u ≠ .infinity .positive) :
    placeOf u < beyond := by
  have hpos := beyond_pos
  rcases h.cases with rfl | rfl | h
  · show -(beyond : Int) < beyond
    omega
  · exact absurd rfl hne
  · have hlt := h.natAbs_placeOf_lt
    omega

theorem Regular.lt_placeOf (h : Regular u) (hne : u ≠ .infinity .negative) :
    -beyond < placeOf u := by
  have hpos := beyond_pos
  rcases h.cases with rfl | rfl | h
  · exact absurd rfl hne
  · show -(beyond : Int) < beyond
    omega
  · have hlt := h.natAbs_placeOf_lt
    omega

theorem Regular.limited (h : Regular u) (hlt : (placeOf u).natAbs < beyond) : Limited u := by
  rcases h.cases with rfl | rfl | h
  · rw [placeOf_infinity, natAbs_apply] at hlt
    exact absurd hlt (Nat.lt_irrefl _)
  · rw [placeOf_infinity, natAbs_apply] at hlt
    exact absurd hlt (Nat.lt_irrefl _)
  · exact h

theorem natAbs_place_le (x : Float) : (place x).natAbs ≤ beyond := by
  rcases hx : x.isNaN
  · rw [place]
    rcases (regular_of_isNaN hx).cases with h | h | h
    · rw [h, placeOf_infinity, natAbs_apply]
    · rw [h, placeOf_infinity, natAbs_apply]
    · exact h.natAbs_placeOf_lt.le
  · have hnan : x.toModel.unpack = .notANumber := UnpackedFloat.isNaN_iff.mp hx
    rw [place, hnan, placeOf_notANumber, Int.natAbs_zero]
    exact Nat.zero_le _

theorem Limited.compare_eq (hu : Limited u) (hv : Limited v) :
    u.compare v = some (compare (placeOf u) (placeOf v)) := by
  cases u with
  | infinity s => exact hu.elim
  | notANumber => exact hu.elim
  | zero s =>
    cases v with
    | infinity s' => exact hv.elim
    | notANumber => exact hv.elim
    | zero s' => exact some_eq_eq 0
    | finite s' n f hn =>
      have hpos : 0 < unitsOf n f := unitsOf_pos hn
      cases s'
      · exact some_gt_eq (by simp only [placeOf, Sign.apply]; omega)
      · exact some_lt_eq (by simp only [placeOf, Sign.apply]; omega)
  | finite s m e hm =>
    cases v with
    | infinity s' => exact hv.elim
    | notANumber => exact hv.elim
    | zero s' =>
      have hpos : 0 < unitsOf m e := unitsOf_pos hm
      cases s
      · exact some_lt_eq (by simp only [placeOf, Sign.apply]; omega)
      · exact some_gt_eq (by simp only [placeOf, Sign.apply]; omega)
    | finite s' n f hn => exact compare_finite hu.1 hv.1

theorem compare_infinity (hv : Limited v) (s : Sign) :
    (UnpackedFloat.infinity s).compare v = some (compare (s.apply beyond) (placeOf v)) := by
  have hlt := hv.natAbs_placeOf_lt
  cases v with
  | infinity s' => exact hv.elim
  | notANumber => exact hv.elim
  | _ =>
    cases s
    · exact some_lt_eq (by rw [Sign.apply]; omega)
    · exact some_gt_eq (by rw [Sign.apply]; omega)

theorem compare_infinity_right (hu : Limited u) (s : Sign) :
    u.compare (.infinity s) = some (compare (placeOf u) (s.apply beyond)) := by
  have hlt := hu.natAbs_placeOf_lt
  cases u with
  | infinity s' => exact hu.elim
  | notANumber => exact hu.elim
  | _ =>
    cases s
    · exact some_gt_eq (by rw [Sign.apply]; omega)
    · exact some_lt_eq (by rw [Sign.apply]; omega)

/-- **Floats that are numbers are compared as their places.** -/
theorem Regular.compare_eq (hu : Regular u) (hv : Regular v) :
    u.compare v = some (compare (placeOf u) (placeOf v)) := by
  have hpos : -(beyond : Int) < beyond := by
    have hpos := beyond_pos
    omega
  rcases hu.cases with rfl | rfl | hu
  · rcases hv.cases with rfl | rfl | hv
    · exact some_eq_eq _
    · exact some_lt_eq hpos
    · exact compare_infinity hv _
  · rcases hv.cases with rfl | rfl | hv
    · exact some_gt_eq hpos
    · exact some_eq_eq _
    · exact compare_infinity hv _
  · rcases hv.cases with rfl | rfl | hv
    · exact compare_infinity_right hu _
    · exact compare_infinity_right hu _
    · exact hu.compare_eq hv

/-- **A number is less than another if and only if its place is.** -/
theorem lt_iff (hx : x.isNaN = false) (hy : y.isNaN = false) : x < y ↔ place x < place y := by
  have hcompare := (regular_of_isNaN hx).compare_eq (regular_of_isNaN hy)
  have hlt : x < y ↔ (x.toModel.unpack.compare y.toModel.unpack == some .lt) = true :=
    decide_eq_true_iff
  rw [hlt, hcompare, beq_iff_eq, Option.some_inj, Int.compare_eq_lt]
  rfl

theorem le_iff_compare :
    x ≤ y ↔ (x.toModel.unpack.compare y.toModel.unpack).any (·.isLE) = true :=
  decide_eq_true_iff

theorem le_iff (hx : x.isNaN = false) (hy : y.isNaN = false) : x ≤ y ↔ place x ≤ place y := by
  have hcompare := (regular_of_isNaN hx).compare_eq (regular_of_isNaN hy)
  rw [le_iff_compare, hcompare, Option.any_some, Int.isLE_compare]
  rfl

/-- What is less or equal is a number, and so is what is greater. -/
theorem isNaN_of_le (h : x ≤ y) : x.isNaN = false ∧ y.isNaN = false := by
  rw [le_iff_compare] at h
  refine ⟨isNaN_eq_false_iff.mpr fun hx => ?_, isNaN_eq_false_iff.mpr fun hy => ?_⟩
  · rw [hx] at h
    cases h
  · rw [hy] at h
    cases hx : x.toModel.unpack <;> rw [hx] at h <;> cases h

theorem beq_iff (hx : x.isNaN = false) (hy : y.isNaN = false) :
    (x == y) = true ↔ place x = place y := by
  have hcompare := (regular_of_isNaN hx).compare_eq (regular_of_isNaN hy)
  have hbeq : (x == y) = (x.toModel.unpack.compare y.toModel.unpack == some .eq) := rfl
  rw [hbeq, hcompare, beq_iff_eq, Option.some_inj, Int.compare_eq_eq]
  rfl

end MarkdownIndex.Decimal
