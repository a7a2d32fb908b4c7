import Mathlib
import MarkdownIndex.Proofs.Decimal.Order

/-!
# Rounding keeps the order of floats

A product or a sum of floats is the exact number, rounded to 53 bits; what is too large is infinite.
The number of bits that are rounded away differs from number to number, and so does the unit that is
left. Still no greater number is rounded to a lesser one.

* `Nearest` — a whole number is nearest to a quotient by a power of two, and of two the even one;
  `nearest_nearestOf` — shifting bit by bit leads to it.
* `Rounded` — what is left of a number of units with 53 bits; `Rounded.mono` — it keeps the order.
* `amounts_roundWithAccuracy`, `placeOf_repack` — what rounding and packing make of a mantissa.
* `Settles` — a number of whatever sign, rounded to a place; `Limited.settles_mul`,
  `Limited.settles_add` — products and sums are such.
* `place_mul_mono`, `place_add_mono` — products with a weight, and sums, keep the order.
-/

namespace MarkdownIndex.Decimal

open Float.Model UnpackedFloat

variable {m n : Nat} {e f : Int} {s : Sign} {u v : UnpackedFloat}

/-! ## Rounding -/

/-- A whole number is nearest to `m / 2^n`, and of two the even one. -/
structure Nearest (m n r : Nat) : Prop where
  /-- it is no more than one half too large -/
  le : 2 * (r * 2 ^ n) ≤ 2 * m + 2 ^ n
  /-- it is no more than one half too small -/
  ge : 2 * m ≤ 2 * (r * 2 ^ n) + 2 ^ n
  /-- if it is one half too large, it is even -/
  even_of_le : 2 * (r * 2 ^ n) = 2 * m + 2 ^ n → r % 2 = 0
  /-- if it is one half too small, it is even -/
  even_of_ge : 2 * m = 2 * (r * 2 ^ n) + 2 ^ n → r % 2 = 0

variable {m' n' r r' : Nat}

theorem Nearest.mono (h : Nearest m n r) (h' : Nearest m' n r') (hm : m ≤ m') : r ≤ r' := by
  by_contra hlt
  have hpos : 0 < 2 ^ n := Nat.two_pow_pos n
  have hstep : (r' + 1) * 2 ^ n ≤ r * 2 ^ n := Nat.mul_le_mul_right _ (by omega)
  rw [Nat.succ_mul] at hstep
  have hle := h.le
  have hge := h'.ge
  -- both are one half off, in different directions, so both are even; but they follow each other
  have heven := h.even_of_le (by omega)
  have heven' := h'.even_of_ge (by omega)
  have hnext : r * 2 ^ n = (r' + 1) * 2 ^ n := by rw [Nat.succ_mul]; omega
  have hr := Nat.eq_of_mul_eq_mul_right hpos hnext
  omega

theorem nearest_mul (r n : Nat) : Nearest (r * 2 ^ n) n r where
  le := Nat.le_add_right _ _
  ge := Nat.le_add_right _ _
  even_of_le := fun h => absurd h (Nat.ne_of_lt (Nat.lt_add_of_pos_right (Nat.two_pow_pos n)))
  even_of_ge := fun h => absurd h (Nat.ne_of_lt (Nat.lt_add_of_pos_right (Nat.two_pow_pos n)))

/-- Finer units do not matter. -/
theorem Nearest.scale (h : Nearest m n r) (j : Nat) : Nearest (m * 2 ^ j) (n + j) r := by
  have hpos : 0 < 2 ^ j := Nat.two_pow_pos j
  have hle : ∀ a : Nat, 2 * (a * 2 ^ j) = 2 * a * 2 ^ j := fun a => (Nat.mul_assoc 2 a _).symm
  have hpow : r * 2 ^ (n + j) = r * 2 ^ n * 2 ^ j := by rw [Nat.pow_add, Nat.mul_assoc]
  have hsum : ∀ a : Nat, 2 * (a * 2 ^ j) + 2 ^ (n + j) = (2 * a + 2 ^ n) * 2 ^ j := fun a => by
    rw [hle, Nat.pow_add, Nat.add_mul]
  refine ⟨?_, ?_, fun heq => ?_, fun heq => ?_⟩
  · rw [hpow, hsum, hle]
    exact Nat.mul_le_mul_right _ h.le
  · rw [hpow, hsum, hle]
    exact Nat.mul_le_mul_right _ h.ge
  · rw [hpow, hsum, hle] at heq
    exact h.even_of_le (Nat.eq_of_mul_eq_mul_right hpos heq)
  · rw [hpow, hsum, hle] at heq
    exact h.even_of_ge (Nat.eq_of_mul_eq_mul_right hpos heq)

/-- What is shifted out is kept in two bits: whether it is one half at least, and whether it is
something else than nothing and one half. -/
theorem shiftRight_spec (m n : Nat) :
    ((⟨m, false, false⟩ : ExtendedMantissa) >>> n).mantissa = m / 2 ^ n ∧
      (((⟨m, false, false⟩ : ExtendedMantissa) >>> n).roundBit = true ↔ 2 ^ n ≤ 2 * (m % 2 ^ n)) ∧
      (((⟨m, false, false⟩ : ExtendedMantissa) >>> n).stickyBit = true ↔
        m % 2 ^ n ≠ 0 ∧ 2 * (m % 2 ^ n) ≠ 2 ^ n) := by
  show (n.repeat ExtendedMantissa.shiftRightOne ⟨m, false, false⟩).mantissa = _ ∧
    ((n.repeat ExtendedMantissa.shiftRightOne ⟨m, false, false⟩).roundBit = true ↔ _) ∧
    ((n.repeat ExtendedMantissa.shiftRightOne ⟨m, false, false⟩).stickyBit = true ↔ _)
  induction n with
  | zero => simp [Nat.repeat, Nat.mod_one]
  | succ n ih =>
    obtain ⟨hmantissa, hround, hsticky⟩ := ih
    have hpos : 0 < 2 ^ n := Nat.two_pow_pos n
    have hlt : m % 2 ^ n < 2 ^ n := Nat.mod_lt _ hpos
    have hmod : m % 2 ^ (n + 1) = m % 2 ^ n + 2 ^ n * (m / 2 ^ n % 2) := Nat.mod_pow_succ
    have hpow : 2 ^ (n + 1) = 2 ^ n * 2 := Nat.pow_succ 2 n
    rw [Nat.repeat, ExtendedMantissa.shiftRightOne]
    refine ⟨?_, ?_, ?_⟩
    · rw [hmantissa, Nat.div_div_eq_div_mul, hpow]
    · rw [hmantissa, bne_iff_ne, hmod, hpow]
      rcases Nat.mod_two_eq_zero_or_one (m / 2 ^ n) with h | h <;> rw [h] <;> omega
    · rw [Bool.or_eq_true, hround, hsticky, hmod, hpow]
      rcases Nat.mod_two_eq_zero_or_one (m / 2 ^ n) with h | h <;> rw [h] <;> omega

/-- What a mantissa is when some bits are rounded away. -/
def nearestOf (m n : Nat) : Nat := ((⟨m, false, false⟩ : ExtendedMantissa) >>> n).roundedMantissa

/-- **Shifting and then rounding gives the nearest number.** -/
theorem nearest_nearestOf (m n : Nat) : Nearest m n (nearestOf m n) := by
  rw [nearestOf]
  obtain ⟨hmantissa, hround, hsticky⟩ := shiftRight_spec m n
  generalize (⟨m, false, false⟩ : ExtendedMantissa) >>> n = x at hmantissa hround hsticky ⊢
  obtain ⟨q, roundBit, stickyBit⟩ := x
  dsimp only at hmantissa hround hsticky
  have hdiv : q * 2 ^ n + m % 2 ^ n = m := by
    rw [hmantissa, Nat.mul_comm]
    exact Nat.div_add_mod m (2 ^ n)
  have hlt : m % 2 ^ n < 2 ^ n := Nat.mod_lt _ (Nat.two_pow_pos n)
  have hsucc : (q + 1) * 2 ^ n = q * 2 ^ n + 2 ^ n := Nat.succ_mul _ _
  cases roundBit with
  | false =>
    -- less than one half is left out
    have hless : 2 * (m % 2 ^ n) < 2 ^ n := by simpa using hround
    have hkept : (ExtendedMantissa.mk q false stickyBit).roundedMantissa = q := by
      cases stickyBit <;> rfl
    rw [hkept]
    constructor <;> omega
  | true =>
    have hmore : 2 ^ n ≤ 2 * (m % 2 ^ n) := by simpa using hround
    cases stickyBit with
    | false =>
      have hhalf : 2 * (m % 2 ^ n) = 2 ^ n := by
        by_contra hne
        refine absurd (hsticky.mpr ⟨fun hzero => ?_, hne⟩) Bool.false_ne_true
        omega
      have heven : (ExtendedMantissa.mk q true false).roundedMantissa = q + q % 2 := rfl
      rw [heven]
      rcases Nat.mod_two_eq_zero_or_one q with h | h
      · rw [h, Nat.add_zero]
        constructor <;> omega
      · rw [h]
        constructor <;> omega
    | true =>
      have hne : 2 * (m % 2 ^ n) ≠ 2 ^ n := (hsticky.mp rfl).2
      have hnext : (ExtendedMantissa.mk q true true).roundedMantissa = q + 1 := rfl
      rw [hnext]
      constructor <;> omega

/-- What is left of `m` units `2^-F` when they are rounded to 53 bits and to whole units. -/
def Rounded (F m v : Nat) : Prop :=
  ∃ k r, v = r * 2 ^ k ∧ Nearest m (F + k) r ∧ m < 2 ^ (53 + (F + k)) ∧
    (k = 0 ∨ 2 ^ (52 + (F + k)) ≤ m)

variable {F v w : Nat}

theorem rounded_zero (F : Nat) : Rounded F 0 0 :=
  ⟨0, 0, rfl, by simpa using nearest_mul 0 (F + 0), Nat.two_pow_pos _, Or.inl rfl⟩

/-- What is stored is not rounded. -/
theorem Stored.rounded (h : Stored m e) : Rounded 0 (unitsOf m e) (unitsOf m e) := by
  have hle := h.least
  refine ⟨(e + 1074).toNat, m, rfl, ?_, ?_, ?_⟩
  · rw [Nat.zero_add]
    exact nearest_mul m _
  · rw [Nat.zero_add]
    exact h.unitsOf_lt_pow
  · refine h.full.imp (fun he => by omega) fun hm => ?_
    rw [Nat.zero_add, Nat.pow_add]
    exact Nat.mul_le_mul_right _ hm

/-- **Rounding keeps the order,** also from one number of bits to another. -/
theorem Rounded.mono (h : Rounded F m v) (h' : Rounded F n w) (hmn : m ≤ n) : v ≤ w := by
  obtain ⟨k, r, rfl, hr, hm, hk⟩ := h
  obtain ⟨l, r', rfl, hr', hn, hl⟩ := h'
  rcases lt_trichotomy k l with hkl | rfl | hkl
  · -- what has more bits than fit is behind all that has not
    have hle : r ≤ 2 ^ 53 := by
      refine hr.mono (nearest_mul (2 ^ 53) (F + k)) ?_
      rw [← Nat.pow_add]
      exact hm.le
    have hge : 2 ^ 52 ≤ r' := by
      refine (nearest_mul (2 ^ 52) (F + l)).mono hr' ?_
      rw [← Nat.pow_add]
      exact hl.resolve_left (by omega)
    calc r * 2 ^ k ≤ 2 ^ 53 * 2 ^ k := Nat.mul_le_mul_right _ hle
      _ = 2 ^ 52 * 2 ^ (k + 1) := by rw [← Nat.pow_add, ← Nat.pow_add]; congr 1; omega
      _ ≤ 2 ^ 52 * 2 ^ l := Nat.mul_le_mul_left _ (Nat.pow_le_pow_right Nat.two_pos hkl)
      _ ≤ r' * 2 ^ l := Nat.mul_le_mul_right _ hge
  · exact Nat.mul_le_mul_right _ (hr.mono hr' hmn)
  · -- a number cannot have more bits than a greater one
    have hfull := hk.resolve_left (by omega)
    have hbits : 2 ^ (53 + (F + l)) ≤ 2 ^ (52 + (F + k)) :=
      Nat.pow_le_pow_right Nat.two_pos (by omega)
    omega

/-- A number of units with a sign, in the form in which it is stored, but for an exponent that may
be too large. -/
inductive Amounts (s : Sign) : Nat → UnpackedFloat → Prop
  /-- no units -/
  | zero : Amounts s 0 (.zero s)
  /-- some units -/
  | finite {m : Nat} {e : Int} (hm : 0 < m) (h : Stored m e) :
    Amounts s (unitsOf m e) (.finite s m e hm)

theorem amounts_dite (hv : v = unitsOf m e) (h : Stored m e) :
    Amounts s v (if hm : m = 0 then .zero s else .finite s m e (Nat.pos_of_ne_zero hm)) := by
  subst hv
  split_ifs with hm
  · rw [hm, unitsOf, Nat.zero_mul]
    exact .zero
  · exact .finite _ h

/-- A mantissa of 53 bits that has become one of 54 by rounding is cut by one bit, which is zero. -/
theorem stored_shiftRight {t : Int} (hr : r ≤ 2 ^ 53) (ht : -1074 ≤ t)
    (hfull : t = -1074 ∨ 2 ^ 52 ≤ r) (hn : n = (max (totalExponent r t - 53) (-1074) - t).toNat) :
    Stored (r / 2 ^ n) (t + n) ∧ unitsOf (r / 2 ^ n) (t + n) = r * 2 ^ (t + 1074).toNat := by
  rw [totalExponent] at hn
  rcases hr.lt_or_eq with hlt | rfl
  · have hlog : r.log2 ≤ 52 := log2_le hlt
    obtain rfl : n = 0 := by omega
    rw [Nat.pow_zero, Nat.div_one, Int.natCast_zero, Int.add_zero]
    exact ⟨⟨hlt, ht, hfull⟩, rfl⟩
  · rw [Nat.log2_two_pow] at hn
    obtain rfl : n = 1 := by omega
    have hexp : (t + (1 : Nat) + 1074).toNat = (t + 1074).toNat + 1 := by omega
    refine ⟨⟨by decide, by omega, Or.inr (by decide)⟩, ?_⟩
    rw [unitsOf, hexp, Nat.pow_succ _ (t + 1074).toNat, Nat.mul_comm _ 2, ← Nat.mul_assoc]
    rfl

/-- **Rounding leaves what is nearest,** in the form in which it is stored. -/
theorem amounts_roundWithAccuracy (hm : 0 < m) (he : e ≤ max (totalExponent m e - 53) (-1074))
    (hF : -1074 - F ≤ e) :
    ∃ v, Rounded F (m * 2 ^ (e + 1074 + F).toNat) v ∧
      Amounts s v (roundWithAccuracy Format.binary64 s m e .exact) := by
  generalize ht : max (totalExponent m e - 53) (-1074) = t at he
  generalize hn : (t - e).toNat = n
  have hnearest := nearest_nearestOf m n
  have hbits : m < 2 ^ (53 + n) := by
    rw [totalExponent] at ht
    exact Nat.lt_log2_self.trans_le (Nat.pow_le_pow_right Nat.two_pos (by omega))
  have hfull : t = -1074 ∨ 2 ^ (52 + n) ≤ m := by
    rw [totalExponent] at ht
    rcases Int.lt_or_le (-1074) t with hlt | hle
    · refine Or.inr (le_trans ?_ (Nat.log2_self_le hm.ne'))
      exact Nat.pow_le_pow_right Nat.two_pos (by omega)
    · exact Or.inl (by omega)
  refine ⟨nearestOf m n * 2 ^ (t + 1074).toNat,
    ⟨(t + 1074).toNat, nearestOf m n, rfl, ?_, ?_, ?_⟩, ?_⟩
  · have hscaled := hnearest.scale (e + 1074 + F).toNat
    rwa [show n + (e + 1074 + F).toNat = F + (t + 1074).toNat by omega] at hscaled
  · calc m * 2 ^ (e + 1074 + F).toNat < 2 ^ (53 + n) * 2 ^ (e + 1074 + F).toNat :=
          Nat.mul_lt_mul_of_pos_right hbits (Nat.two_pow_pos _)
      _ = 2 ^ (53 + (F + (t + 1074).toNat)) := by rw [← Nat.pow_add]; congr 1; omega
  · refine hfull.imp (fun h => by omega) fun h => ?_
    calc 2 ^ (52 + (F + (t + 1074).toNat)) = 2 ^ (52 + n) * 2 ^ (e + 1074 + F).toNat := by
          rw [← Nat.pow_add]; congr 1; omega
      _ ≤ m * 2 ^ (e + 1074 + F).toNat := Nat.mul_le_mul_right _ h
  · have hle : nearestOf m n ≤ 2 ^ 53 := by
      refine hnearest.mono (nearest_mul (2 ^ 53) n) ?_
      rw [← Nat.pow_add]
      exact hbits.le
    have hkept : t = -1074 ∨ 2 ^ 52 ≤ nearestOf m n := by
      refine hfull.imp_right fun h => (nearest_mul (2 ^ 52) n).mono hnearest ?_
      rw [← Nat.pow_add]
      exact h
    obtain ⟨hstored, hunits⟩ := stored_shiftRight hle (by omega) hkept rfl
    have hsum : e + n = t := by omega
    rw [roundWithAccuracy]
    simp only [shiftToTargetExponent, shiftToExponent, targetExponent_eq]
    refine amounts_dite ?_ ?_
    · rw [ht, hn, hsum, mantissa_shiftRight]
      exact hunits.symm
    · rw [ht, hn, hsum, mantissa_shiftRight]
      exact hstored

/-! ## Packing -/

/-- What a float is when it has been stored. -/
def repack (u : UnpackedFloat) : UnpackedFloat :=
  UnpackedFloat.unpack Format.binary64 (UnpackedFloat.pack Format.binary64 u)

theorem repack_notANumber : repack .notANumber = .notANumber := UnpackedFloat.unpack_packedNaN

theorem repack_infinity (s : Sign) : repack (.infinity s) = .infinity s := by
  cases s <;> rfl

theorem toNat_concat_ofNat (hlo : 2 ^ 52 ≤ m) (hhi : m < 2 ^ 53) :
    (1#1 ++ BitVec.ofNat 52 m).toNat = m := by
  rw [BitVec.toNat_append, ← Nat.shiftLeft_add_eq_or_of_lt (BitVec.ofNat 52 m).isLt,
    Nat.shiftLeft_eq, BitVec.toNat_ofNat, BitVec.toNat_ofNat]
  omega

/-- What is stored stays what it is, as long as its exponent is not too large. -/
theorem repack_of_stored (hm : 0 < m) (h : Stored m e) (he : e ≤ 971) :
    repack (.finite s m e hm) = .finite s m e hm := by
  have hlt := h.lt
  have hle := h.least
  have hbias : (e + Format.binary64.exponentBias +
      Format.binary64.mantissaBitsWithoutImplicit : Int) = e + 1075 := by
    rw [Int.add_assoc]; rfl
  have hbias' : (Format.binary64.exponentBias + Format.binary64.mantissaBitsWithoutImplicit : Int)
    = 1075 := rfl
  have hfields : 2 ^ Format.binary64.exponentBits = 2048 := rfl
  have hbits : Format.binary64.mantissaBits = 53 := rfl
  rw [repack, UnpackedFloat.pack]
  dsimp only
  rw [hbias, hfields, hbits, if_neg (by omega)]
  split_ifs with hlog
  · have hlo : 2 ^ 52 ≤ m := by
      have hself := Nat.log2_self_le hm.ne'
      rwa [show m.log2 = 52 by omega] at hself
    have hto : (BitVec.ofNat 11 (e + 1075).toNat).toNat = (e + 1075).toNat := by
      rw [BitVec.toNat_ofNat]
      omega
    have hne : ∀ {b : BitVec 11}, b.toNat ≠ (e + 1075).toNat →
        BitVec.ofNat 11 (e + 1075).toNat ≠ b := fun hb heq => hb (heq ▸ hto)
    rw [UnpackedFloat.unpack]
    simp only [unpackExponent_packComponents, unpackMantissa_packComponents,
      unpackSign_packComponents, Sign.ofBitVec_toBitVec]
    rw [if_neg (hne (by simp; omega)), if_neg (hne (by simp; omega))]
    simp only [UnpackedFloat.finite.injEq, true_and]
    exact ⟨toNat_concat_ofNat hlo hlt, by rw [hbias']; omega⟩
  · have hhi : m < 2 ^ 52 := by
      by_contra hge
      have hlog' : 52 ≤ m.log2 := (Nat.le_log2 hm.ne').mpr (by omega)
      have hlog'' : m.log2 ≤ 52 := log2_le hlt
      omega
    obtain rfl : e = -1074 := h.full.resolve_right (by omega)
    have hto : (BitVec.ofNat 52 m).toNat = m := by
      rw [BitVec.toNat_ofNat]
      exact Nat.mod_eq_of_lt hhi
    have hne : BitVec.ofNat 52 m ≠ 0#52 := by
      intro heq
      have hzero := congrArg BitVec.toNat heq
      rw [hto] at hzero
      exact hm.ne' hzero
    rw [UnpackedFloat.unpack]
    simp only [unpackExponent_packComponents, unpackMantissa_packComponents,
      unpackSign_packComponents, Sign.ofBitVec_toBitVec]
    rw [if_neg (by decide), if_pos trivial, dif_neg hne]
    simp only [UnpackedFloat.finite.injEq, true_and]
    exact ⟨hto, by rw [hbias']; rfl⟩

/-- **Packing leaves the place of a float, or puts it at infinity if it is too large.** -/
theorem placeOf_repack (h : Amounts s v u) :
    placeOf (repack u) = s.apply (min v beyond : Nat) := by
  cases h with
  | zero =>
    rw [Nat.zero_min]
    cases s <;> rfl
  | @finite m e hm h =>
    rcases Int.lt_or_le 971 e with hlt | hle
    · have hlo : 2 ^ 52 ≤ m := h.full.resolve_left (by omega)
      have hge : beyond ≤ unitsOf m e := by
        calc beyond ≤ 2 ^ (52 + (e + 1074).toNat) := beyond_le_pow (by omega)
          _ = 2 ^ 52 * 2 ^ (e + 1074).toNat := Nat.pow_add _ _ _
          _ ≤ unitsOf m e := Nat.mul_le_mul_right _ hlo
      have hbias : (e + Format.binary64.exponentBias +
          Format.binary64.mantissaBitsWithoutImplicit : Int) = e + 1075 := by
        rw [Int.add_assoc]; rfl
      have hfields : 2 ^ Format.binary64.exponentBits = 2048 := rfl
      rw [repack, UnpackedFloat.pack]
      dsimp only
      rw [hbias, hfields, if_pos (by omega), Nat.min_eq_right hge]
      cases s <;> rfl
    · rw [repack_of_stored hm h hle, Nat.min_eq_left (h.unitsOf_lt hle).le]
      rfl

/-! ## Operations -/

/-- The product of two floats. -/
def productOf (u v : UnpackedFloat) : UnpackedFloat :=
  repack (UnpackedFloat.mul Format.binary64 u v)

/-- The sum of two floats. -/
def sumOf (u v : UnpackedFloat) : UnpackedFloat :=
  repack (UnpackedFloat.add Format.binary64 u v)

/-- A number of units `2^-F` rounded to a place, of whatever sign. -/
def Settles (F : Nat) (z p : Int) : Prop :=
  ∃ v s, Rounded F z.natAbs v ∧ z = s.apply z.natAbs ∧ p = Sign.apply s (min v beyond : Nat)

variable {z z' p p' : Int}

/-- **Rounding keeps the order of numbers,** of whatever sign and however large. -/
theorem Settles.mono (h : Settles F z p) (h' : Settles F z' p') (hz : z ≤ z') : p ≤ p' := by
  obtain ⟨v, s, hv, hs, rfl⟩ := h
  obtain ⟨v', s', hv', hs', rfl⟩ := h'
  cases s <;> cases s' <;> simp only [Sign.apply] at hs hs' ⊢
  · have hle := hv'.mono hv (by omega)
    omega
  · omega
  · -- both are zero
    have hle := hv.mono (rounded_zero F) (by omega)
    have hle' := hv'.mono (rounded_zero F) (by omega)
    omega
  · have hle := hv.mono hv' (by omega)
    omega

theorem settles_of_amounts (hv : Rounded F z.natAbs v) (hz : z = s.apply z.natAbs)
    (h : Amounts s v u) : Settles F z (placeOf (repack u)) :=
  ⟨v, s, hv, hz, placeOf_repack h⟩

theorem settles_zero (F : Nat) (s : Sign) : Settles F 0 (placeOf (repack (.zero s))) :=
  settles_of_amounts (rounded_zero F) (by cases s <;> rfl) .zero

theorem apply_eq_natAbs (s : Sign) (a : Nat) : s.apply a = s.apply (s.apply a).natAbs := by
  rw [natAbs_apply]

/-- The product with a positive number of 53 bits. -/
theorem Limited.settles_mul (h : Limited u) (hm : 0 < m) (hfull : 2 ^ 52 ≤ m)
    (he : e = -(F : Int)) :
    Settles F (placeOf u * m) (placeOf (productOf (.finite .positive m e hm) u)) := by
  cases u with
  | infinity s => exact h.elim
  | notANumber => exact h.elim
  | zero s =>
    rw [placeOf_zero, Int.zero_mul]
    exact settles_zero F _
  | finite s n f hn =>
    obtain ⟨hstored, -⟩ := h
    have hle := hstored.least
    have hlog : 52 ≤ (m * n).log2 := by
      refine (Nat.le_log2 (Nat.mul_pos hm hn).ne').mpr (hfull.trans ?_)
      exact Nat.le_mul_of_pos_right m hn
    obtain ⟨v, hv, hamounts⟩ := amounts_roundWithAccuracy (s := Sign.positive * s) (F := F)
      (Nat.mul_pos hm hn) (e := e + f) (by rw [totalExponent]; omega) (by omega)
    have hsign : Sign.positive * s = s := by cases s <;> rfl
    have hunits : m * n * 2 ^ (e + f + 1074 + F).toNat = unitsOf n f * m := by
      rw [unitsOf, Nat.mul_comm (n * _), Nat.mul_assoc]
      congr 4
      omega
    have hplace : placeOf (.finite s n f hn) * (m : Int) = s.apply (unitsOf n f * m : Nat) := by
      cases s <;> simp only [placeOf, Sign.apply, Int.natCast_mul, Int.neg_mul]
    rw [hunits] at hv
    rw [hsign] at hamounts
    rw [hplace]
    rw [productOf, UnpackedFloat.mul, hsign]
    exact settles_of_amounts (by rwa [natAbs_apply]) (apply_eq_natAbs s _) hamounts

theorem log2_shiftLeft (hm : 0 < m) (n : Nat) : (m <<< n).log2 = m.log2 + n := by
  have hlow : 2 ^ (m.log2 + n) ≤ m <<< n := by
    rw [Nat.shiftLeft_eq, Nat.pow_add]
    exact Nat.mul_le_mul_right _ (Nat.log2_self_le hm.ne')
  have hhigh : m <<< n < 2 ^ (m.log2 + n + 1) := by
    rw [Nat.shiftLeft_eq, Nat.add_right_comm, Nat.pow_add]
    exact Nat.mul_lt_mul_of_pos_right Nat.lt_log2_self (Nat.two_pow_pos n)
  have hne : m <<< n ≠ 0 := (Nat.two_pow_pos _).trans_le hlow |>.ne'
  exact Nat.le_antisymm (log2_le hhigh) ((Nat.le_log2 hne).mpr hlow)

/-- Rounding a number of units of which none is finer than the least. -/
theorem amounts_round (hm : 0 < m) (he : -1074 ≤ e) :
    ∃ v, Rounded 0 (unitsOf m e) v ∧ Amounts s v (UnpackedFloat.round Format.binary64 s m e) := by
  rw [UnpackedFloat.round]
  simp only [decreaseExponent, targetExponent_eq]
  generalize hk : (e - max (totalExponent m e - 53) (-1074)).toNat = k
  have hpos : 0 < m <<< k := by
    rw [Nat.shiftLeft_eq]
    exact Nat.mul_pos hm (Nat.two_pow_pos k)
  have htotal : totalExponent (m <<< k) (e - k) = totalExponent m e := by
    rw [totalExponent, totalExponent, log2_shiftLeft hm]
    omega
  obtain ⟨v, hv, hamounts⟩ := amounts_roundWithAccuracy (s := s) (F := 0) hpos (e := e - k)
    (by rw [htotal]; omega) (by omega)
  refine ⟨v, ?_, hamounts⟩
  have hunits : m <<< k * 2 ^ (e - k + 1074 + (0 : Nat)).toNat = unitsOf m e := by
    rw [Nat.shiftLeft_eq, Nat.mul_assoc, ← Nat.pow_add, unitsOf]
    congr 2
    omega
  rwa [hunits] at hv

theorem apply_unitsOf (s : Sign) (m : Nat) (e : Int) :
    s.apply (unitsOf m e) = s.apply m * 2 ^ (e + 1074).toNat := by
  cases s <;> simp only [Sign.apply, unitsOf, Int.natCast_mul, Int.natCast_pow, Int.neg_mul] <;> rfl

/-- A mantissa of whatever sign, rounded. -/
theorem settles_normalize (i : Int) (he : -1074 ≤ e) (s : Sign) :
    Settles 0 (i * 2 ^ (e + 1074).toNat)
      (placeOf (repack (UnpackedFloat.normalize Format.binary64 i e s))) := by
  have hround : ∀ (s : Sign) (a : Nat), 0 < a → Settles 0 (s.apply a * 2 ^ (e + 1074).toNat)
      (placeOf (repack (UnpackedFloat.round Format.binary64 s a e))) := by
    intro s a ha
    obtain ⟨v, hv, hamounts⟩ := amounts_round (s := s) ha he
    rw [← apply_unitsOf]
    exact settles_of_amounts (by rwa [natAbs_apply]) (apply_eq_natAbs s _) hamounts
  rw [UnpackedFloat.normalize]
  split
  · rename_i hlt
    rw [Int.compare_eq_lt] at hlt
    have hneg := hround .negative (-i).toNat (by omega)
    rwa [show Sign.negative.apply (-i).toNat = i by simp only [Sign.apply]; omega] at hneg
  · rename_i heq
    rw [Int.compare_eq_eq] at heq
    rw [heq, Int.zero_mul]
    exact settles_zero 0 s
  · rename_i hgt
    rw [Int.compare_eq_gt] at hgt
    have hpos := hround .positive i.toNat (by omega)
    rwa [show Sign.positive.apply i.toNat = i by simp only [Sign.apply]; omega] at hpos

theorem Stored.settles (hm : 0 < m) (h : Stored m e) :
    Settles 0 (placeOf (.finite s m e hm)) (placeOf (repack (.finite s m e hm))) := by
  rw [placeOf]
  refine settles_of_amounts ?_ (apply_eq_natAbs s _) (.finite hm h)
  rw [natAbs_apply]
  exact h.rounded

/-- A magnitude in finer units. -/
theorem apply_shiftLeft (s : Sign) (m : Nat) {f : Int} (hf : f ≤ e) (hf' : -1074 ≤ f) :
    s.apply (m <<< (e - f).toNat : Nat) * 2 ^ (f + 1074).toNat = s.apply (unitsOf m e) := by
  have hunits : m <<< (e - f).toNat * 2 ^ (f + 1074).toNat = unitsOf m e := by
    rw [Nat.shiftLeft_eq, Nat.mul_assoc, ← Nat.pow_add, unitsOf]
    congr 2
    omega
  rw [← hunits]
  cases s <;> simp only [Sign.apply, Int.natCast_mul, Int.natCast_pow, Int.neg_mul] <;> rfl

/-- The sum of two numbers. -/
theorem Limited.settles_add {w : UnpackedFloat} (hu : Limited u) (hw : Limited w) :
    Settles 0 (placeOf u + placeOf w) (placeOf (sumOf u w)) := by
  cases u with
  | infinity s => exact hu.elim
  | notANumber => exact hu.elim
  | zero s =>
    rw [placeOf_zero, Int.zero_add]
    cases w with
    | infinity s' => exact hw.elim
    | notANumber => exact hw.elim
    | zero s' =>
      rw [sumOf, UnpackedFloat.add]
      split_ifs <;> exact settles_zero 0 _
    | finite s' n f hn => exact hw.1.settles hn
  | finite s m e hm =>
    cases w with
    | infinity s' => exact hw.elim
    | notANumber => exact hw.elim
    | zero s' =>
      rw [placeOf_zero, Int.add_zero]
      exact hu.1.settles hm
    | finite s' n f hn =>
      have hle := hu.1.least
      have hle' := hw.1.least
      have hsum := settles_normalize (e := min e f)
        (s.apply (m <<< (e - min e f).toNat : Nat) + s'.apply (n <<< (f - min e f).toNat : Nat))
        (by omega) .positive
      rw [Int.add_mul, apply_shiftLeft s m (Int.min_le_left e f) (by omega),
        apply_shiftLeft s' n (Int.min_le_right e f) (by omega)] at hsum
      exact hsum

/-! ## Operations on floats -/

variable {x x' y y' : Float}

theorem place_mul (x y : Float) :
    place (x * y) = placeOf (productOf x.toModel.unpack y.toModel.unpack) := rfl

theorem place_add (x y : Float) :
    place (x + y) = placeOf (sumOf x.toModel.unpack y.toModel.unpack) := rfl

theorem isNaN_add_eq_false_iff :
    (x + y).isNaN = false ↔ sumOf x.toModel.unpack y.toModel.unpack ≠ .notANumber :=
  isNaN_eq_false_iff

/-- What makes a sum that is a number is two numbers. -/
theorem isNaN_of_add (h : (x + y).isNaN = false) : x.isNaN = false ∧ y.isNaN = false := by
  rw [isNaN_add_eq_false_iff] at h
  refine ⟨isNaN_eq_false_iff.mpr fun hx => h ?_, isNaN_eq_false_iff.mpr fun hy => h ?_⟩
  · rw [hx]
    exact repack_notANumber
  · rw [hy]
    cases x.toModel.unpack <;> exact repack_notANumber

/-- Numbers that are not infinite at the far ends are not infinite at all. -/
theorem limited_of_place_le (hx : x.isNaN = false) (hy : y.isNaN = false)
    (hxy : place x ≤ place y) (hleast : x.toModel.unpack ≠ .infinity .negative)
    (hgreatest : y.toModel.unpack ≠ .infinity .positive) :
    Limited x.toModel.unpack ∧ Limited y.toModel.unpack := by
  have hlow := (regular_of_isNaN hx).lt_placeOf hleast
  have hhigh := (regular_of_isNaN hy).placeOf_lt hgreatest
  rw [place, place] at hxy
  exact ⟨(regular_of_isNaN hx).limited (by omega), (regular_of_isNaN hy).limited (by omega)⟩

/-- **A product with a positive weight keeps the order.** -/
theorem place_mul_mono {w : Float} (hm : 0 < m) (hw : w.toModel.unpack = .finite .positive m e hm)
    (hfull : 2 ^ 52 ≤ m) (he : e ≤ 0) (hx : x.isNaN = false) (hy : y.isNaN = false)
    (hxy : place x ≤ place y) : place (w * x) ≤ place (w * y) := by
  have hboundx := natAbs_place_le (w * x)
  have hboundy := natAbs_place_le (w * y)
  have hinfinity : ∀ (z : Float) (s : Sign), z.toModel.unpack = .infinity s →
      place (w * z) = s.apply beyond := by
    intro z s hz
    rw [place_mul, hw, hz]
    cases s <;> exact congrArg placeOf (repack_infinity _)
  by_cases hleast : x.toModel.unpack = .infinity .negative
  · have hproduct : place (w * x) = -beyond := hinfinity x _ hleast
    omega
  by_cases hgreatest : y.toModel.unpack = .infinity .positive
  · have hproduct : place (w * y) = beyond := hinfinity y _ hgreatest
    omega
  obtain ⟨hlimx, hlimy⟩ := limited_of_place_le hx hy hxy hleast hgreatest
  have hunit : e = -(e.natAbs : Int) := by omega
  have hle : place x * m ≤ place y * m :=
    Int.mul_le_mul_of_nonneg_right hxy (Int.natCast_nonneg m)
  rw [place_mul, place_mul, hw]
  exact (hlimx.settles_mul hm hfull hunit).mono (hlimy.settles_mul hm hfull hunit) hle

/-- A sum with an infinite number is infinite, if it is a number. -/
theorem sumOf_infinity {u v : UnpackedFloat} (h : u = .infinity s ∨ v = .infinity s)
    (hne : sumOf u v ≠ .notANumber) : sumOf u v = .infinity s := by
  -- two infinite numbers of different signs have no sum
  have hboth : ∀ s₁ s₂ : Sign, sumOf (.infinity s₁) (.infinity s₂) ≠ .notANumber → s₁ = s₂ := by
    intro s₁ s₂
    cases s₁ <;> cases s₂
    · exact fun _ => rfl
    · exact fun hsum => absurd repack_notANumber hsum
    · exact fun hsum => absurd repack_notANumber hsum
    · exact fun _ => rfl
  have hsame : ∀ s : Sign, sumOf (.infinity s) (.infinity s) = .infinity s := by
    intro s
    cases s <;> exact repack_infinity _
  rcases h with rfl | rfl
  · cases v with
    | infinity s' => rw [← hboth s s' hne, hsame]
    | notANumber => exact absurd repack_notANumber hne
    | zero s' => exact repack_infinity s
    | finite s' n f hn => exact repack_infinity s
  · cases u with
    | infinity s' => rw [hboth s' s hne, hsame]
    | notANumber => exact absurd repack_notANumber hne
    | zero s' => exact repack_infinity s
    | finite s' n f hn => exact repack_infinity s

theorem place_add_of_infinity (h : (x + y).isNaN = false)
    (hxy : x.toModel.unpack = .infinity s ∨ y.toModel.unpack = .infinity s) :
    place (x + y) = s.apply beyond := by
  rw [place_add, sumOf_infinity hxy (isNaN_add_eq_false_iff.mp h), placeOf_infinity]

/-- **A sum keeps the order,** as long as it is a number. -/
theorem place_add_mono (h : (x + y).isNaN = false) (h' : (x' + y').isNaN = false)
    (hx : place x ≤ place x') (hy : place y ≤ place y') :
    place (x + y) ≤ place (x' + y') := by
  obtain ⟨hnumx, hnumy⟩ := isNaN_of_add h
  obtain ⟨hnumx', hnumy'⟩ := isNaN_of_add h'
  have hbound := natAbs_place_le (x + y)
  have hbound' := natAbs_place_le (x' + y')
  by_cases hleast : x.toModel.unpack = .infinity .negative ∨
      y.toModel.unpack = .infinity .negative
  · have hsum : place (x + y) = -beyond := place_add_of_infinity h hleast
    omega
  by_cases hgreatest : x'.toModel.unpack = .infinity .positive ∨
      y'.toModel.unpack = .infinity .positive
  · have hsum : place (x' + y') = beyond := place_add_of_infinity h' hgreatest
    omega
  rw [not_or] at hgreatest hleast
  obtain ⟨hlimx, hlimx'⟩ := limited_of_place_le hnumx hnumx' hx hleast.1 hgreatest.1
  obtain ⟨hlimy, hlimy'⟩ := limited_of_place_le hnumy hnumy' hy hleast.2 hgreatest.2
  rw [place_add, place_add]
  exact (hlimx.settles_add hlimy).mono (hlimx'.settles_add hlimy') (Int.add_le_add hx hy)

end MarkdownIndex.Decimal
