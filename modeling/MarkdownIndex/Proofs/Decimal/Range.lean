import Mathlib
import MarkdownIndex.Decimal.Binary
import MarkdownIndex.Json.Number
import MarkdownIndex.Time

/-!
# Ranges of floats: what stays within 64 bits

A sum, a product or a quotient of floats is rounded, and beyond the largest float it is infinite.
How large it can be is said by its unit alone: a finite float is a whole number of units `2^e` that
takes at most 53 bits.

* `InUnits`, `Counted` — a float is finite, and its unit is at most `2^j`.
* `inUnits_roundWithAccuracy`, `inUnits_unpack_pack` — what rounding and packing do to the unit.
* `Counted.mul`, `Counted.add`, `Counted.div` — what the operations do to it.
* `Counted.read`, `Counted.isFinite` — what is known of such a float.
* `counted_seconds`, `counted_powerOfTen` — seconds and powers of ten are that small.
-/

namespace MarkdownIndex.Decimal

open Float.Model UnpackedFloat

/-! ## Units -/

/-- A number that is finite and counted in units of at most `2^j`. -/
def InUnits (j : Int) : UnpackedFloat → Prop
  | .zero _ => True
  | .finite _ _ e _ => e ≤ j
  | _ => False

instance (j : Int) : DecidablePred (InUnits j)
  | .zero _ => .isTrue trivial
  | .finite _ _ e _ => inferInstanceAs (Decidable (e ≤ j))
  | .infinity _ => .isFalse id
  | .notANumber => .isFalse id

variable {i j e : Int} {m : Nat} {s : Sign} {acc : Accuracy}

/-! ## Packing -/

theorem inUnits_unpack_packComponents {exponent : BitVec 11} {mantissa : BitVec 52}
    (hne : exponent ≠ -1#_) (he : (exponent.toNat : Int) - 1075 ≤ j) (hj : -1074 ≤ j) :
    InUnits j (UnpackedFloat.unpack Format.binary64
      (packComponents Format.binary64 s exponent mantissa)) := by
  rw [UnpackedFloat.unpack]
  simp only [unpackExponent_packComponents, unpackMantissa_packComponents]
  have hbias : (Format.binary64.exponentBias + Format.binary64.mantissaBitsWithoutImplicit : Int)
    = 1075 := rfl
  split_ifs with h₁ h₂ h₃ h₄
  · exact absurd h₁ hne
  · exact absurd h₁ hne
  · trivial
  · subst h₃
    show (0 : Int) - _ + 1 ≤ j
    rw [hbias]
    exact hj
  · show (exponent.toNat : Int) - _ ≤ j
    rw [hbias]
    exact he

theorem inUnits_unpack_pack {u : UnpackedFloat} (h : InUnits j u) (hlow : -1074 ≤ j)
    (hhigh : j < 972) :
    InUnits j (UnpackedFloat.unpack Format.binary64 (UnpackedFloat.pack Format.binary64 u)) := by
  cases u with
  | infinity => exact h.elim
  | notANumber => exact h.elim
  | zero => exact inUnits_unpack_packComponents (by decide) (by simp; omega) hlow
  | finite s m e hm =>
    have he : e ≤ j := h
    rw [UnpackedFloat.pack]
    have hbias : (e + Format.binary64.exponentBias +
      Format.binary64.mantissaBitsWithoutImplicit : Int) = e + 1075 := by
      rw [Int.add_assoc]; rfl
    have hbits : 2 ^ Format.binary64.exponentBits = 2048 := rfl
    dsimp only
    rw [hbias, hbits]
    rw [if_neg (by omega)]
    split_ifs
    · have hto : (BitVec.ofNat 11 (e + 1075).toNat).toNat = (e + 1075).toNat := by
        rw [BitVec.toNat_ofNat]
        omega
      refine inUnits_unpack_packComponents ?_ ?_ hlow
      · intro heq
        have hall := congrArg BitVec.toNat heq
        rw [hto] at hall
        simp at hall
        omega
      · rw [hto]
        omega
    · exact inUnits_unpack_packComponents (by decide) (by simp; omega) hlow

/-- The mantissa of a float has at most 53 bits, and its unit is at most `2^971`. -/
theorem bounds_of_unpack {b : BitVec Format.binary64.numBits} {hm : 0 < m}
    (h : UnpackedFloat.unpack Format.binary64 b = .finite s m e hm) : m < 2 ^ 53 ∧ e ≤ 971 := by
  rw [UnpackedFloat.unpack] at h
  dsimp only at h
  split_ifs at h with hmax _ hzero
  · obtain ⟨-, rfl, rfl⟩ := UnpackedFloat.finite.inj h
    refine ⟨(unpackMantissa b).isLt.trans (by decide), ?_⟩
    rw [hzero]
    decide
  · obtain ⟨-, rfl, rfl⟩ := UnpackedFloat.finite.inj h
    refine ⟨(1#1 ++ unpackMantissa b).isLt, ?_⟩
    have hlt : (unpackExponent b).toNat < 2048 := (unpackExponent b).isLt
    have hne : (unpackExponent b).toNat ≠ 2047 := by
      intro heq
      exact hmax (BitVec.eq_of_toNat_eq heq)
    show ((unpackExponent b).toNat : Int) - 1075 ≤ 971
    omega

/-! ## Rounding -/

theorem mantissa_shiftRight (x : ExtendedMantissa) (n : Nat) :
    (x >>> n).mantissa = x.mantissa / 2 ^ n := by
  have hrepeat : ∀ n : Nat, (n.repeat ExtendedMantissa.shiftRightOne x).mantissa =
      x.mantissa / 2 ^ n := by
    intro n
    induction n with
    | zero => rw [Nat.pow_zero, Nat.div_one]; rfl
    | succ n ih =>
      rw [Nat.repeat, ExtendedMantissa.shiftRightOne, ih, Nat.div_div_eq_div_mul, Nat.pow_succ]
  exact hrepeat n

theorem mantissa_ofMantissaAndAccuracy (m : Nat) (acc : Accuracy) :
    (ExtendedMantissa.ofMantissaAndAccuracy m acc).mantissa = m := by
  cases acc with
  | exact => rfl
  | inexact o => cases o <;> rfl

theorem roundedMantissa_le (x : ExtendedMantissa) : x.roundedMantissa ≤ x.mantissa + 1 := by
  rw [ExtendedMantissa.roundedMantissa]
  cases x.accuracy with
  | exact => exact Nat.le_succ _
  | inexact o =>
    cases o with
    | lt => exact Nat.le_succ _
    | eq =>
      rw [Accuracy.roundToNearestEven]
      omega
    | gt => exact Nat.le_refl _

theorem targetExponent_eq (t : Int) : Format.binary64.targetExponent t = max (t - 53) (-1074) := rfl

theorem log2_le {n k : Nat} (h : n < 2 ^ (k + 1)) : n.log2 ≤ k := by
  rcases Nat.eq_zero_or_pos n with rfl | hn
  · exact Nat.zero_le k
  · exact Nat.le_of_lt_succ ((Nat.log2_lt hn.ne').mpr h)

theorem inUnits_dite (h : e ≤ j) :
    InUnits j (if hm : m = 0 then .zero s else .finite s m e (Nat.pos_of_ne_zero hm)) := by
  split_ifs
  · trivial
  · exact h

/-- Rounding coarsens the unit to that of 53 bits, and once more for a carry. -/
theorem inUnits_roundWithAccuracy (he : e < j) (ht : totalExponent m e - 53 < j) (hj : -1074 < j) :
    InUnits j (roundWithAccuracy Format.binary64 s m e acc) := by
  rw [roundWithAccuracy]
  simp only [shiftToTargetExponent, shiftToExponent, targetExponent_eq]
  refine inUnits_dite ?_
  generalize hn : (max (totalExponent m e - 53) (-1074) - e).toNat = n
  generalize hx : ExtendedMantissa.ofMantissaAndAccuracy m acc >>> n = x
  have hkept : x.mantissa < 2 ^ 53 := by
    rw [← hx, mantissa_shiftRight, mantissa_ofMantissaAndAccuracy,
      Nat.div_lt_iff_lt_mul (Nat.two_pow_pos n), ← Nat.pow_add]
    refine Nat.lt_log2_self.trans_le (Nat.pow_le_pow_right (by decide) ?_)
    rw [totalExponent] at hn
    omega
  have hcarry : x.roundedMantissa.log2 ≤ 53 := by
    refine log2_le ((roundedMantissa_le x).trans_lt ?_)
    omega
  rw [totalExponent]
  omega

theorem totalExponent_shiftLeft_le (m n : Nat) (e : Int) :
    totalExponent (m <<< n) (e - n) ≤ totalExponent m e := by
  have hlog : (m <<< n).log2 ≤ m.log2 + n := by
    refine log2_le ?_
    rw [Nat.shiftLeft_eq, show m.log2 + n + 1 = m.log2 + 1 + n by omega, Nat.pow_add]
    exact Nat.mul_lt_mul_of_pos_right Nat.lt_log2_self (Nat.two_pow_pos n)
  rw [totalExponent, totalExponent]
  omega

theorem inUnits_round (he : e < j) (ht : totalExponent m e - 53 < j) (hj : -1074 < j) :
    InUnits j (UnpackedFloat.round Format.binary64 s m e) := by
  rw [UnpackedFloat.round]
  simp only [decreaseExponent]
  refine inUnits_roundWithAccuracy (by omega) ?_ hj
  have hle := totalExponent_shiftLeft_le m
    (e - Format.binary64.targetExponent (totalExponent m e)).toNat e
  omega

theorem inUnits_normalize {n : Int} (he : e < j) (ht : totalExponent n.natAbs e - 53 < j)
    (hj : -1074 < j) : InUnits j (UnpackedFloat.normalize Format.binary64 n e s) := by
  rw [UnpackedFloat.normalize]
  split
  · rw [show (-n).toNat = n.natAbs by rename_i h; rw [Int.compare_eq_lt] at h; omega]
    exact inUnits_round he ht hj
  · trivial
  · rw [show n.toNat = n.natAbs by rename_i h; rw [Int.compare_eq_gt] at h; omega]
    exact inUnits_round he ht hj

/-! ## Operations -/

/-- A float that is finite and counted in units of at most `2^j`. -/
def Counted (j : Int) (x : Float) : Prop := InUnits j x.toModel.unpack

variable {x y : Float}

theorem counted_ofModel_pack {u : UnpackedFloat} (h : InUnits j u) (hlow : -1074 ≤ j)
    (hhigh : j < 972) : Counted j (Float.ofModel (Float.Model.pack u)) :=
  inUnits_unpack_pack h hlow hhigh

theorem counted_toFloat (n : UInt64) : Counted 12 n.toFloat := by
  refine counted_ofModel_pack ?_ (by decide) (by decide)
  refine inUnits_normalize (by decide) ?_ (by decide)
  have hlog : n.toNat.log2 ≤ 63 := log2_le n.toNat_lt
  rw [totalExponent, Int.natAbs_natCast]
  omega

/-- Zero, or a mantissa and a unit. -/
theorem Counted.cases (h : Counted j x) :
    (∃ s, x.toModel.unpack = .zero s) ∨
      ∃ s m e hm, x.toModel.unpack = .finite s m e hm ∧ e ≤ j ∧ m < 2 ^ 53 := by
  rw [Counted] at h
  cases hx : x.toModel.unpack with
  | infinity => rw [hx] at h; exact h.elim
  | notANumber => rw [hx] at h; exact h.elim
  | zero s => exact Or.inl ⟨s, rfl⟩
  | finite s m e hm =>
    rw [hx] at h
    exact Or.inr ⟨s, m, e, hm, rfl, h, (bounds_of_unpack hx).1⟩

theorem Counted.mono (h : Counted i x) (hij : i ≤ j) : Counted j x := by
  rw [Counted]
  obtain ⟨s, hx⟩ | ⟨s, m, e, hm, hx, he, -⟩ := h.cases
  · rw [hx]
    trivial
  · rw [hx]
    exact Int.le_trans he hij

/-- The unit of a product is that of the factors, times the bits that are rounded away. -/
theorem Counted.mul (hx : Counted i x) (hy : Counted j y) (hlow : -1074 < i + j + 54)
    (hhigh : i + j + 54 < 972) : Counted (i + j + 54) (x * y) := by
  refine counted_ofModel_pack ?_ hlow.le hhigh
  obtain ⟨s₁, hx⟩ | ⟨s₁, m₁, e₁, hm₁, hx, he₁, hlt₁⟩ := hx.cases
  · obtain ⟨s₂, hy⟩ | ⟨s₂, m₂, e₂, hm₂, hy, -, -⟩ := hy.cases
    · rw [hx, hy]
      trivial
    · rw [hx, hy]
      trivial
  · obtain ⟨s₂, hy⟩ | ⟨s₂, m₂, e₂, hm₂, hy, he₂, hlt₂⟩ := hy.cases
    · rw [hx, hy]
      trivial
    · rw [hx, hy]
      have hlog : (m₁ * m₂).log2 ≤ 105 := by
        refine log2_le ?_
        rw [show 105 + 1 = 53 + 53 from rfl, Nat.pow_add]
        exact Nat.mul_lt_mul'' hlt₁ hlt₂
      refine inUnits_roundWithAccuracy (by omega) ?_ hlow
      rw [totalExponent]
      omega

theorem natAbs_apply (s : Sign) (n : Nat) : (s.apply n).natAbs = n := by
  cases s with
  | negative => exact Int.natAbs_neg _
  | positive => rfl

theorem shiftLeft_lt {n k : Nat} (h : m < 2 ^ 53) (hk : n ≤ k) : m <<< n < 2 ^ (53 + k) := by
  rw [Nat.shiftLeft_eq, Nat.pow_add]
  exact Nat.mul_lt_mul_of_lt_of_le h (Nat.pow_le_pow_right (by decide) hk) (Nat.two_pow_pos k)

/-- The unit of a sum is the coarser of both, times one bit for a carry and one for rounding. -/
theorem Counted.add (hx : Counted j x) (hy : Counted j y) (hlow : -1076 < j) (hhigh : j < 970) :
    Counted (j + 2) (x + y) := by
  refine counted_ofModel_pack ?_ (by omega) (by omega)
  obtain ⟨s₁, hx⟩ | ⟨s₁, m₁, e₁, hm₁, hx, he₁, hlt₁⟩ := hx.cases
  · obtain ⟨s₂, hy⟩ | ⟨s₂, m₂, e₂, hm₂, hy, he₂, hlt₂⟩ := hy.cases
    · rw [hx, hy, UnpackedFloat.add]
      split_ifs <;> trivial
    · rw [hx, hy]
      show e₂ ≤ j + 2
      omega
  · obtain ⟨s₂, hy⟩ | ⟨s₂, m₂, e₂, hm₂, hy, he₂, hlt₂⟩ := hy.cases
    · rw [hx, hy]
      show e₁ ≤ j + 2
      omega
    · rw [hx, hy]
      refine inUnits_normalize (by omega) ?_ (by omega)
      generalize he : min e₁ e₂ = e
      have h₁ := shiftLeft_lt (k := (j - e).toNat) hlt₁ (show (e₁ - e).toNat ≤ _ by omega)
      have h₂ := shiftLeft_lt (k := (j - e).toNat) hlt₂ (show (e₂ - e).toNat ≤ _ by omega)
      have habs := Int.natAbs_add_le (s₁.apply ↑(m₁ <<< (e₁ - e).toNat))
        (s₂.apply ↑(m₂ <<< (e₂ - e).toNat))
      rw [natAbs_apply, natAbs_apply] at habs
      have hlog : (s₁.apply ↑(m₁ <<< (e₁ - e).toNat) +
          s₂.apply ↑(m₂ <<< (e₂ - e).toNat)).natAbs.log2 ≤ 53 + (j - e).toNat := by
        refine log2_le (habs.trans_lt ?_)
        rw [Nat.pow_succ]
        omega
      rw [totalExponent]
      omega

/-- The unit of a quotient is that of both numbers divided, times one bit for rounding. -/
theorem Counted.div {k : Int} {n : Nat} {hn : 0 < n} (hx : Counted j x)
    (hy : y.toModel.unpack = .finite s n k hn) (hlow : -1075 < j - k) (hhigh : j - k < 971) :
    Counted (j - k + 1) (x / y) := by
  refine counted_ofModel_pack ?_ (by omega) (by omega)
  obtain ⟨s₁, hx⟩ | ⟨s₁, m, e, hm, hx, he, hlt⟩ := hx.cases
  · rw [hx, hy]
    trivial
  · rw [hx, hy]
    refine inUnits_roundWithAccuracy ?_ ?_ (by omega)
    · omega
    · generalize ht : min (e - k) (Format.binary64.targetExponent
        (totalExponent m e - totalExponent n k)) = t
      have hlog : (m <<< (e - k - t).toNat / n).log2 ≤ 52 + (e - k - t).toNat := by
        refine log2_le ((Nat.div_le_self _ _).trans_lt ?_)
        have hshift := shiftLeft_lt (k := (e - k - t).toNat) hlt (Nat.le_refl _)
        rwa [show 52 + (e - k - t).toNat + 1 = 53 + (e - k - t).toNat by omega]
      rw [totalExponent]
      omega

/-- Every finite float is of some unit. -/
theorem counted_of_isFinite (h : x.isFinite = true) : Counted 971 x := by
  rw [Float.isFinite, Float.Model.isFinite] at h
  rw [Counted]
  cases hx : x.toModel.unpack with
  | infinity => rw [hx] at h; cases h
  | notANumber => rw [hx] at h; cases h
  | zero => trivial
  | finite => exact (bounds_of_unpack hx).2

/-- **Such a float is finite.** -/
theorem Counted.isFinite (h : Counted j x) : x.isFinite = true ∧ x.isInf = false := by
  rw [Float.isFinite, Float.isInf, Float.Model.isFinite, Float.Model.isInf]
  obtain ⟨s, hx⟩ | ⟨s, m, e, hm, hx, -, -⟩ := h.cases
  · rw [hx]
    exact ⟨rfl, rfl⟩
  · rw [hx]
    exact ⟨rfl, rfl⟩

/-! ## Bits -/

theorem toNat_unpackMantissa (b : BitVec Format.binary64.numBits) :
    (unpackMantissa b).toNat = b.toNat % twoTo 52 := by
  rw [unpackMantissa, BitVec.toNat_cast, BitVec.extractLsb_toNat, Nat.shiftRight_zero]
  rfl

theorem toNat_unpackExponent (b : BitVec Format.binary64.numBits) :
    (unpackExponent b).toNat = b.toNat / twoTo 52 % twoTo 11 := by
  rw [unpackExponent, BitVec.toNat_cast, BitVec.extractLsb_toNat, Nat.shiftRight_eq_div_pow]
  rfl

/-- **Its bits are read as a multiple of such a unit.** -/
theorem Counted.read (h : Counted j x) (hj : -1074 ≤ j) :
    ∃ f, double.read x.toBits.toNat = .finite f ∧ f.mantissa < 2 ^ 53 ∧ f.exponent ≤ j := by
  have hunit : InUnits j (UnpackedFloat.unpack Format.binary64 x.toModel.toBits.toBitVec) := h
  rw [show x.toBits.toNat = x.toModel.toBits.toBitVec.toNat from rfl]
  generalize (x.toModel.toBits.toBitVec : BitVec Format.binary64.numBits) = b at hunit
  have hfraction := toNat_unpackMantissa b
  have hfield := toNat_unpackExponent b
  have hlt : b.toNat % twoTo 52 < 4503599627370496 := Nat.mod_lt _ (twoTo_pos 52)
  have hmax : b.toNat / twoTo 52 % twoTo 11 ≠ twoTo 11 - 1 := by
    intro heq
    have hones : @unpackExponent Format.binary64 b = -1#_ :=
      BitVec.eq_of_toNat_eq (hfield.trans heq)
    rw [UnpackedFloat.unpack, if_pos hones] at hunit
    split_ifs at hunit
    · exact hunit
    · exact hunit
  have hleast : double.leastExponent = -1074 := rfl
  rw [BinaryFormat.read, hleast]
  simp only [show double.fractionBits = 52 from rfl, show double.exponentBits = 11 from rfl]
  rw [if_neg hmax]
  split_ifs with hzero
  · exact ⟨_, rfl, hlt.trans (by decide), hj⟩
  · refine ⟨_, rfl, ?_, ?_⟩
    · show 4503599627370496 + _ < 9007199254740992
      omega
    · have hones : @unpackExponent Format.binary64 b ≠ -1#_ := by
        intro heq
        rw [heq] at hfield
        exact hmax hfield.symm
      have hne : @unpackExponent Format.binary64 b ≠ 0#_ := by
        intro heq
        rw [heq] at hfield
        exact hzero hfield.symm
      rw [UnpackedFloat.unpack, if_neg hones, if_neg hne] at hunit
      have hle : ((@unpackExponent Format.binary64 b).toNat : Int) - 1075 ≤ j := hunit
      rw [hfield] at hle
      dsimp only
      omega

/-! ## Times -/

/-- Seconds are counted in units of at most `2^38`. -/
theorem counted_seconds (t : Instant) : Counted 38 t.seconds := by
  rw [Instant.seconds]
  split_ifs with h
  · trivial
  · have hbillion : (1000000000 : Float).toModel.unpack =
        .finite .positive 8388608000000000 (-23) (by decide) := rfl
    have hfraction := (counted_toFloat (t.toNat % 1000000000).toUInt64).div hbillion (by decide)
      (by decide)
    have hwhole := counted_toFloat (t.toNat / 1000000000).toUInt64
    exact (hwhole.mono (by decide)).add hfraction (by decide) (by decide)

theorem counted_powerOfTen {k : Nat} (hk : k ≤ 100) : Counted 290 (Json.powerOfTen k) := by
  have hall : ∀ k ≤ 100, InUnits 290 (Json.powerOfTen k).toModel.unpack := by decide +kernel
  exact hall k hk

end MarkdownIndex.Decimal
