import Mathlib.Data.List.TakeWhile
import MarkdownIndex.Json.Node
import MarkdownIndex.Proofs.Decimal.Range
import MarkdownIndex.Proofs.Decimal.Shortest

/-!
# JSON numbers read back: texts that spell a number

A number ends where no further character could belong to it. So a text spells a number if it is read
as that number wherever something else closes it.

* `Closes`, `Spells` — what ends a number, and what spells one.
* `scanNumber?_eq` — the parts of a number, scanned one after the other.
* `spells_whole`, `spells_fraction`, `exists_spells_positional`, `exists_spells_exponential` — the
  notations.
* `spells_int`, `value?_int` — integers of 64 bits are read back exactly.
* `exists_spells_write`, `Number.exists_spells` — finite floats are spelled by their texts, with a
  fraction or an exponent; `Literal.value?_ne_int` — so none of them is read as an integer.
* `Literal.exists_value?`, `exists_value?_floatText` — what is not huge has a value.
-/

namespace MarkdownIndex.Json

open Decimal

/-! ## Scanners -/

variable {cs ds w f r rest : List Char}

/-- Nothing that a digit could belong to goes on with a text. -/
def NoDigit (cs : List Char) : Prop := ∀ c ∈ cs.head?, c.isDigit = false

/-- No number goes on with a text. -/
def Closes (cs : List Char) : Prop :=
  ∀ c ∈ cs.head?, c.isDigit = false ∧ c ≠ '.' ∧ c ≠ 'e' ∧ c ≠ 'E'

theorem Closes.noDigit (h : Closes cs) : NoDigit cs := fun c hc => (h c hc).1

theorem closes_nil : Closes [] := fun c hc => by cases hc

theorem closes_cons {c : Char} (h : c.isDigit = false ∧ c ≠ '.' ∧ c ≠ 'e' ∧ c ≠ 'E') :
    Closes (c :: cs) := by
  intro d hd
  obtain rfl : c = d := Option.some.inj hd
  exact h

theorem noDigit_cons {c : Char} (h : c.isDigit = false) : NoDigit (c :: cs) := by
  intro d hd
  obtain rfl : c = d := Option.some.inj hd
  exact h

theorem scanDigits_append (hds : ∀ c ∈ ds, c.isDigit = true) (hrest : NoDigit rest) :
    scanDigits (ds ++ rest) = (ds.map digit, rest) := by
  have hnil : rest.takeWhile Char.isDigit = [] ∧ rest.dropWhile Char.isDigit = rest := by
    cases rest with
    | nil => exact ⟨rfl, rfl⟩
    | cons c cs =>
      have hc : ¬ c.isDigit = true := by rw [hrest c rfl]; exact Bool.false_ne_true
      exact ⟨List.takeWhile_cons_of_neg hc, List.dropWhile_cons_of_neg hc⟩
  rw [scanDigits, List.takeWhile_append_of_pos hds, List.dropWhile_append_of_pos hds, hnil.1,
    hnil.2, List.append_nil]

/-- Digits of a whole part: not none, and no needless zero in front. -/
def IsWhole (w : List Char) : Prop :=
  (∀ c ∈ w, c.isDigit = true) ∧ w ≠ [] ∧ (w.head? = some '0' → w.length = 1)

theorem digit_eq_zero_iff {c : Char} (h : c.isDigit = true) : digit c = 0 ↔ c = '0' := by
  have hbounds : 48 ≤ c.toNat ∧ c.toNat ≤ 57 := Char.isDigit_iff_toNat.mp h
  rw [digit, ← Char.toNat_inj, show '0'.toNat = 48 from rfl]
  omega

theorem scanWhole?_append (hw : IsWhole w) (hr : NoDigit r) :
    scanWhole? (w ++ r) = some (w.map digit, r) := by
  obtain ⟨hds, hne, hzero⟩ := hw
  rw [scanWhole?, scanDigits_append hds hr]
  split
  · rename_i heq
    exact absurd (List.map_eq_nil_iff.mp (Prod.mk.inj heq).1) hne
  · rename_i heq
    obtain ⟨c, cs, rfl, hc, hcs⟩ := List.map_eq_cons_iff.mp (Prod.mk.inj heq).1
    obtain ⟨d, ds, rfl, -, -⟩ := List.map_eq_cons_iff.mp hcs
    obtain rfl := (digit_eq_zero_iff (hds c List.mem_cons_self)).mp hc
    cases hzero rfl
  · rfl

theorem scanFraction?_append (hf : ∀ c ∈ f, c.isDigit = true) (hne : f ≠ [])
    (hr : NoDigit r) : scanFraction? ('.' :: (f ++ r)) = some (f.map digit, r) := by
  simp [scanFraction?, scanDigits_append hf hr, hne]

theorem scanFraction?_none (h : ∀ c ∈ cs.head?, c ≠ '.') : scanFraction? cs = some ([], cs) := by
  unfold scanFraction?
  split
  · exact absurd rfl (h '.' rfl)
  · rfl

theorem scanExponent?_none (h : ∀ c ∈ cs.head?, c ≠ 'e' ∧ c ≠ 'E') :
    scanExponent? cs = some (none, cs) := by
  cases cs with
  | nil => rfl
  | cons c cs =>
    have hc := h c rfl
    simp [scanExponent?, hc.1, hc.2]

/-- The sign of an exponent. -/
theorem scanExponent?_append (down : Bool) (hds : ∀ c ∈ ds, c.isDigit = true) (hne : ds ≠ [])
    (hrest : NoDigit rest) :
    scanExponent? ('e' :: ((if down then ['-'] else ['+']) ++ ds ++ rest)) =
      some (some (down, ds.map digit), rest) := by
  cases down with
  | true => simp [scanExponent?, scanDigits_append hds hrest, hne]
  | false => simp [scanExponent?, scanDigits_append hds hrest, hne]

/-- The parts of a number, scanned one after the other. -/
theorem scanNumber?_eq {r₁ r₂ r₃ : List Char} {whole fraction : List Nat}
    {exponent : Option (Bool × List Nat)} (negative : Bool) (hc : ∀ c ∈ cs.head?, c ≠ '-')
    (hw : scanWhole? cs = some (whole, r₁)) (hf : scanFraction? r₁ = some (fraction, r₂))
    (hx : scanExponent? r₂ = some (exponent, r₃)) :
    scanNumber? (withSign negative cs) = some (⟨negative, whole, fraction, exponent⟩, r₃) := by
  cases negative with
  | true => simp [scanNumber?, withSign, hw, hf, hx]
  | false =>
    have hmatch : ∀ ds, cs ≠ '-' :: ds := fun ds h => hc '-' (by rw [h]; rfl) rfl
    simp [scanNumber?, withSign, hw, hf, hx]

/-! ## Digits -/

theorem isDigit_of_mem_digits {n : Nat} {c : Char} (h : c ∈ digits n) : c.isDigit = true :=
  Nat.isDigit_of_mem_toDigits (by decide) (by decide) h

theorem digits_ne_nil (n : Nat) : digits n ≠ [] := Nat.toDigits_ne_nil

/-- The first digit of a number is no zero, unless the number is zero. -/
theorem head?_digits_ne {n : Nat} (hn : n ≠ 0) : (digits n).head? ≠ some '0' := by
  induction n using Nat.strongRecOn with
  | ind n ih =>
    by_cases hlt : n < 10
    · rw [digits, Nat.toDigits_of_lt_base hlt]
      intro h
      have hzero : n.digitChar.toNat - 48 = 0 := by rw [Option.some.inj h]; rfl
      rw [Nat.toNat_digitChar_sub_48_of_lt_ten hlt] at hzero
      exact hn hzero
    · have hge : 10 ≤ n := Nat.le_of_not_lt hlt
      have hhead := ih (n / 10) (by omega) (by omega)
      obtain ⟨c, cs, hcons⟩ := List.exists_cons_of_ne_nil (digits_ne_nil (n / 10))
      rw [digits, Nat.toDigits_of_base_le (by decide) hge, ← digits, hcons]
      rwa [hcons] at hhead

theorem isWhole_digits (n : Nat) : IsWhole (digits n) := by
  refine ⟨fun c => isDigit_of_mem_digits, digits_ne_nil n, fun h => ?_⟩
  rcases Nat.eq_zero_or_pos n with rfl | hn
  · rfl
  · exact absurd h (head?_digits_ne hn.ne')

/-- The number that digits stand for, given the number that those before them stand for. -/
def digitsValue (n : Nat) (ds : List Nat) : Nat := ds.foldl (fun n d => n * 10 + d) n

theorem le_digitsValue (n : Nat) (ds : List Nat) : n ≤ digitsValue n ds := by
  induction ds generalizing n with
  | nil => exact Nat.le_refl n
  | cons d ds ih =>
    refine Nat.le_trans ?_ (ih (n * 10 + d))
    omega

theorem digitsValue_map_digit (n : Nat) (cs : List Char) :
    digitsValue n (cs.map digit) = Nat.ofDigitChars 10 cs n := by
  induction cs generalizing n with
  | nil => rfl
  | cons c cs ih =>
    rw [Nat.ofDigitChars_cons, ← ih, Nat.mul_comm 10 n]
    rfl

theorem digitsValue_digits (n : Nat) : digitsValue 0 ((digits n).map digit) = n := by
  rw [digitsValue_map_digit, digits, Nat.ofDigitChars_ten_toDigits]

/-- Digits within the limit are all appended. -/
theorem appendDigits_eq {limit n : Nat} {ds : List Nat} (h : digitsValue n ds ≤ limit) :
    appendDigits limit n ds = (digitsValue n ds, []) := by
  induction ds generalizing n with
  | nil => rfl
  | cons d ds ih =>
    have hle : n * 10 + d ≤ limit := Nat.le_trans (le_digitsValue _ ds) h
    rw [appendDigits, if_pos hle]
    exact ih h

theorem length_appendDigits_le (limit n : Nat) (ds : List Nat) :
    (appendDigits limit n ds).2.length ≤ ds.length := by
  induction ds generalizing n with
  | nil => exact Nat.le_refl _
  | cons d ds ih =>
    rw [appendDigits]
    split
    · exact Nat.le_succ_of_le (ih _)
    · exact Nat.le_refl _

/-! ## Spelled numbers -/

/-- A text spells a number: it is read as that, whatever closes it. -/
def Spells (cs : List Char) (l : Literal) : Prop :=
  ∀ rest, Closes rest → scanNumber? (cs ++ rest) = some (l, rest)

theorem withSign_append (negative : Bool) (cs rest : List Char) :
    withSign negative cs ++ rest = withSign negative (cs ++ rest) := by
  cases negative <;> rfl

theorem IsWhole.head?_ne (hw : IsWhole w) : ∀ c ∈ (w ++ rest).head?, c ≠ '-' := by
  obtain ⟨hds, hne, -⟩ := hw
  obtain ⟨d, ds, rfl⟩ := List.exists_cons_of_ne_nil hne
  rintro c hc rfl
  obtain rfl : d = '-' := Option.some.inj hc
  cases hds '-' List.mem_cons_self

/-- Digits with a sign. -/
theorem spells_whole (negative : Bool) (hw : IsWhole w) :
    Spells (withSign negative w) ⟨negative, w.map digit, [], none⟩ := by
  intro rest hrest
  rw [withSign_append]
  have hfraction := scanFraction?_none fun c hc => (hrest c hc).2.1
  have hexponent := scanExponent?_none fun c hc => (hrest c hc).2.2
  exact scanNumber?_eq negative hw.head?_ne (scanWhole?_append hw hrest.noDigit) hfraction hexponent

/-- Digits with a point between them. -/
theorem spells_fraction (negative : Bool) (hw : IsWhole w) (hf : ∀ c ∈ f, c.isDigit = true)
    (hne : f ≠ []) :
    Spells (withSign negative (w ++ '.' :: f)) ⟨negative, w.map digit, f.map digit, none⟩ := by
  intro rest hrest
  rw [withSign_append, List.append_assoc, List.cons_append]
  have hfraction := scanFraction?_append hf hne hrest.noDigit
  have hexponent := scanExponent?_none fun c hc => (hrest c hc).2.2
  exact scanNumber?_eq negative hw.head?_ne (scanWhole?_append hw (noDigit_cons rfl)) hfraction
    hexponent

theorem mem_zeros {n : Nat} {c : Char} (h : c ∈ zeros n) : c = '0' := List.eq_of_mem_replicate h

theorem isDigit_of_mem_zeros_append {n : Nat} (hds : ∀ c ∈ ds, c.isDigit = true) :
    ∀ c ∈ zeros n ++ ds, c.isDigit = true := by
  rw [List.forall_mem_append]
  refine ⟨fun c hc => ?_, hds⟩
  rw [mem_zeros hc]
  rfl

/-- Zeros may follow digits, unless these are a zero. -/
theorem isWhole_append_zeros {n : Nat} (hds : IsWhole ds) (hn : ds.head? = some '0' → n = 0) :
    IsWhole (ds ++ zeros n) := by
  obtain ⟨hdigits, hne, hzero⟩ := hds
  refine ⟨?_, List.append_ne_nil_of_left_ne_nil hne _, fun h => ?_⟩
  · rw [List.forall_mem_append]
    refine ⟨hdigits, fun c hc => ?_⟩
    rw [mem_zeros hc]
    rfl
  · rw [List.head?_append_of_ne_nil _ hne] at h
    rw [hn h, zeros, List.replicate_zero, List.append_nil, hzero h]

/-- Digits that have been filled up with zeros from the front may be cut off where only one zero
is left, or none. -/
theorem isWhole_take {places : Nat} {padded : List Char} (hds : IsWhole ds)
    (hpadded : padded = zeros (places + 1 - ds.length) ++ ds) :
    padded.length = max ds.length (places + 1) ∧
      IsWhole (padded.take (padded.length - places)) := by
  obtain ⟨hdigits, -, hzero⟩ := hds
  have htotal : padded.length = max ds.length (places + 1) := by
    rw [hpadded, List.length_append, zeros, List.length_replicate]
    omega
  refine ⟨htotal, fun c hc => ?_, ?_, fun h => ?_⟩
  · have hc := List.mem_of_mem_take hc
    rw [hpadded] at hc
    exact isDigit_of_mem_zeros_append hdigits c hc
  · rw [← List.length_pos_iff, List.length_take, htotal]
    omega
  · rw [List.length_take, htotal]
    rcases Nat.lt_or_ge places ds.length with hlt | hge
    · rw [hpadded, List.head?_take, if_neg (by rw [← hpadded]; omega),
        Nat.sub_eq_zero_of_le hlt] at h
      have hone := hzero h
      omega
    · omega

/-- Positional notation is read as digits on both sides of a point. -/
theorem exists_spells_positional (negative : Bool) {d : Scientific}
    (hd : d.coefficient ≠ 0 ∨ d.exponent ≤ 0) :
    ∃ whole fraction, Spells (withSign negative (positional ['.', '0'] d))
        ⟨negative, whole, fraction, none⟩ ∧ fraction ≠ [] ∧
      (whole.length : Int) ≤ max 1 (d.magnitude + 1) := by
  have hdigits := isWhole_digits d.coefficient
  have hhead := @head?_digits_ne d.coefficient
  have hlength : 0 < (digits d.coefficient).length := List.length_pos_iff.mpr hdigits.2.1
  rw [positional, Scientific.magnitude]
  generalize digits d.coefficient = ds at hdigits hhead hlength
  dsimp only
  split_ifs with hexponent
  · -- zeros follow the digits
    have hzeros : ds.head? = some '0' → d.exponent.toNat = 0 := fun hzero => by
      have hnonpos : d.exponent ≤ 0 := hd.resolve_left fun hc => hhead hc hzero
      omega
    have hw := isWhole_append_zeros hdigits hzeros
    refine ⟨_, _, spells_fraction negative hw (f := ['0']) (by simp) (by simp), by simp, ?_⟩
    rw [List.length_map, List.length_append, zeros, List.length_replicate]
    omega
  · -- the point stands between the digits, or in front of them
    generalize hplaces : (-d.exponent).toNat = places
    generalize hpadded : zeros (places + 1 - ds.length) ++ ds = padded
    obtain ⟨htotal, hw⟩ := isWhole_take hdigits hpadded.symm
    have hbehind : padded.drop (padded.length - places) ≠ [] := by
      rw [← List.length_pos_iff, List.length_drop, htotal]
      omega
    have hfraction : ∀ c ∈ padded.drop (padded.length - places), c.isDigit = true := fun c hc =>
      isDigit_of_mem_zeros_append hdigits.1 c (hpadded ▸ List.mem_of_mem_drop hc)
    refine ⟨_, _, spells_fraction negative hw hfraction hbehind,
      mt List.map_eq_nil_iff.mp hbehind, ?_⟩
    rw [List.length_map, List.length_take, htotal]
    omega

/-- Exponential notation is read as a digit with a fraction and a power of ten. -/
theorem exists_spells_exponential (negative : Bool) (d : Scientific) :
    ∃ whole fraction, Spells (withSign negative (exponential ['+'] d))
        ⟨negative, [whole], fraction,
          some (d.magnitude < 0, (digits d.magnitude.natAbs).map digit)⟩ := by
  obtain ⟨hds, hne, -⟩ := isWhole_digits d.coefficient
  obtain ⟨c, cs, hcons⟩ := List.exists_cons_of_ne_nil hne
  rw [hcons] at hds
  have hc : IsWhole [c] := by
    refine ⟨fun e he => hds e ?_, List.cons_ne_nil c [], fun _ => rfl⟩
    rw [List.mem_singleton.mp he]
    exact List.mem_cons_self
  refine ⟨digit c, cs.map digit, fun rest hrest => ?_⟩
  have hexponent := scanExponent?_append (d.magnitude < 0)
    (fun _ => isDigit_of_mem_digits (n := d.magnitude.natAbs)) (digits_ne_nil _) hrest.noDigit
  simp only [decide_eq_true_eq] at hexponent
  rw [withSign_append, exponential, hcons]
  cases cs with
  | nil =>
    have hwhole := scanWhole?_append (r := 'e' :: ((if d.magnitude < 0 then ['-'] else ['+']) ++
      digits d.magnitude.natAbs ++ rest)) hc (noDigit_cons rfl)
    refine scanNumber?_eq negative hc.head?_ne hwhole (scanFraction?_none ?_) hexponent
    intro e he
    obtain rfl : 'e' = e := Option.some.inj he
    decide
  | cons e es =>
    have hwhole := scanWhole?_append (r := '.' :: ((e :: es) ++
      ('e' :: ((if d.magnitude < 0 then ['-'] else ['+']) ++
        digits d.magnitude.natAbs ++ rest)))) hc (noDigit_cons rfl)
    have hfraction := scanFraction?_append (f := e :: es)
      (r := 'e' :: ((if d.magnitude < 0 then ['-'] else ['+']) ++
        digits d.magnitude.natAbs ++ rest)) (fun a ha => hds a (List.mem_cons_of_mem c ha))
      (List.cons_ne_nil e es) (noDigit_cons rfl)
    have hnumber := scanNumber?_eq negative hc.head?_ne hwhole hfraction hexponent
    simpa using hnumber

/-! ## Integers -/

theorem toList_toString (n : Int) :
    (toString n).toList = withSign (n < 0) (digits n.natAbs) := by
  rw [Int.toString_eq_repr, Int.repr_eq_if]
  split_ifs with h
  · rw [Nat.toList_repr, decide_eq_false (by omega), digits,
      show n.toNat = n.natAbs by omega]
    rfl
  · rw [String.toList_append, Nat.toList_repr, decide_eq_true (by omega), digits,
      show (-n).toNat = n.natAbs by omega]
    rfl

theorem spells_int (n : Int) :
    Spells (toString n).toList ⟨n < 0, (digits n.natAbs).map digit, [], none⟩ := by
  rw [toList_toString]
  exact spells_whole _ (isWhole_digits _)

/-- **An integer of 64 bits is read back.** -/
theorem value?_int {n : Int} (hl : -(twoTo 63 : Int) ≤ n) (hg : n < twoTo 64) :
    Literal.value? ⟨n < 0, (digits n.natAbs).map digit, [], none⟩ = some (.int n) := by
  have h63 : twoTo 63 = 9223372036854775808 := rfl
  have h64 : twoTo 64 = 18446744073709551616 := rfl
  have hlimit : n.natAbs ≤ significandLimit := by
    rw [significandLimit]
    omega
  have happend : appendDigits significandLimit 0 ((digits n.natAbs).map digit) =
      (n.natAbs, []) := by
    rw [appendDigits_eq (by rwa [digitsValue_digits]), digitsValue_digits]
  simp only [Literal.value?, happend, List.isEmpty_nil, Option.isNone_none, and_self, if_true,
    Literal.integerValue, decide_eq_true_eq]
  split_ifs with hneg hbounds
  · rw [show -(n.natAbs : Int) = n by omega]
  · omega
  · rw [show (n.natAbs : Int) = n by omega]

/-! ## Floats -/

/-- The digits that an exponent may put before the point. -/
def upward : Option (Bool × List Nat) → Nat
  | some (false, ds) => digitsValue 0 ds
  | _ => 0

/-- The digits that a number may have before its point. -/
def Literal.reach (l : Literal) : Nat := l.whole.length + upward l.exponent

theorem upward_digits (n : Int) :
    upward (some (n < 0, (digits n.natAbs).map digit)) = n.toNat := by
  by_cases h : n < 0
  · rw [decide_eq_true h]
    simp only [upward]
    omega
  · rw [decide_eq_false h]
    simp only [upward, digitsValue_digits]
    omega

/-- A spelling has neither a fraction nor an exponent. -/
def Literal.Plain (l : Literal) : Prop := l.fraction = [] ∧ l.exponent = none

/-- **The text of a finite float is a number,** has a fraction or an exponent, and has no more
digits before its point than the float is large. -/
theorem exists_spells_write (x : Finite) :
    ∃ l, Spells (floatLayout.write (.finite x)).toList l ∧ ¬l.Plain ∧
      (l.reach : Int) ≤ max 16 (x.neighbourhood.value.topExponent + 1) := by
  have hshortest := x.magnitude_shortest_le
  simp only [Layout.write, String.toList_ofList, Layout.magnitude, floatLayout]
  generalize x.shortest = d at hshortest
  split_ifs with h
  · -- positional notation has no exponent
    have hvalid : d.coefficient ≠ 0 ∨ d.exponent ≤ 0 := by
      obtain rfl | ⟨hne, -⟩ := hshortest
      · exact Or.inr (Int.le_refl 0)
      · exact Or.inl hne
    obtain ⟨whole, fraction, hspells, hfraction, hlength⟩ :=
      exists_spells_positional x.negative hvalid
    refine ⟨_, hspells, fun h => hfraction h.1, ?_⟩
    have hmagnitude : d.magnitude ≤ 15 := by
      obtain rfl | ⟨hne, -⟩ := hshortest
      · decide
      · exact (h.resolve_left hne).2
    simp only [Literal.reach, upward]
    omega
  · -- exponential notation has one digit before the point
    obtain ⟨whole, fraction, hspells⟩ := exists_spells_exponential x.negative d
    refine ⟨_, hspells, fun h => Option.some_ne_none _ h.2, ?_⟩
    have hmagnitude : d.magnitude ≤ x.neighbourhood.value.topExponent := by
      obtain rfl | ⟨-, hle⟩ := hshortest
      · exact absurd (Or.inl rfl) h
      · exact hle
    simp only [Literal.reach, upward_digits, List.length_singleton]
    omega

theorem exists_spells_floatText {x : Float} (h : x.isFinite = true) :
    ∃ l, Spells (floatText x).toList l ∧ ¬l.Plain := by
  obtain ⟨f, hread, -, -⟩ := (counted_of_isFinite h).read (by decide)
  obtain ⟨l, hl, hplain, -⟩ := exists_spells_write f
  rw [floatText, if_pos h, hread]
  exact ⟨l, hl, hplain⟩

/-- The text of a number is a number, or `null` for what is not finite. -/
theorem Number.exists_spells (n : Number) :
    n.text = "null" ∨ ∃ l, Spells n.text.toList l := by
  cases n with
  | int n => exact Or.inr ⟨_, spells_int n⟩
  | float x =>
    by_cases h : x.isFinite = true
    · obtain ⟨l, hl, -⟩ := exists_spells_floatText h
      exact Or.inr ⟨l, hl⟩
    · exact Or.inl (if_neg h)

/-! ## Values of floats -/

/-- A significand with a moderate power of ten is within the floats. -/
theorem exists_scale? (m : Nat) {p : Int} (h : p ≤ 100) :
    ∃ x, scale? (floatOfNat m) p = some x := by
  rw [scale?]
  split_ifs with hdown hup
  · exact ⟨_, rfl⟩
  · have hten : Counted 290 (powerOfTen p.toNat) := counted_powerOfTen (by omega)
    have hproduct := (counted_toFloat m.toUInt64).mul hten (by decide) (by decide)
    have hinf : (floatOfNat m * powerOfTen p.toNat).isInf = false := hproduct.isFinite.2
    simp only [hinf]
    exact ⟨_, rfl⟩
  · omega
  · omega

/-- **A number with a moderate power of ten has a value.** -/
theorem Literal.exists_value? {l : Literal} (h : l.reach ≤ 100) : ∃ n, l.value? = some n := by
  have hskipped := length_appendDigits_le significandLimit 0 l.whole
  rw [reach] at h
  rw [value?]
  generalize appendDigits significandLimit 0 l.whole = found at hskipped
  obtain ⟨n, skipped⟩ := found
  dsimp only at hskipped ⊢
  split_ifs
  · exact ⟨_, rfl⟩
  · generalize appendDigits significandLimit n l.fraction = found
    obtain ⟨m, rest⟩ := found
    dsimp only
    generalize hpower : (skipped.length : Int) - (l.fraction.length - rest.length : Nat) = power
    have hle : power ≤ l.whole.length := by omega
    match hexponent : l.exponent with
    | none =>
      obtain ⟨x, hx⟩ := exists_scale? m (p := power) (by omega)
      rw [floatValue?, hx]
      exact ⟨_, rfl⟩
    | some (true, ds) =>
      rw [floatValue?]
      generalize appendDigits exponentLimit 0 ds = found
      obtain ⟨e, beyond⟩ := found
      obtain ⟨x, hx⟩ := exists_scale? m (p := power - e) (by omega)
      by_cases hbeyond : beyond.isEmpty = true
      · simp [hbeyond, hx]
      · simp [hbeyond]
    | some (false, ds) =>
      rw [hexponent] at h
      simp only [upward] at h
      have hlimit : digitsValue 0 ds ≤ exponentLimit := by
        have h31 : exponentLimit = 2147483647 := rfl
        omega
      rw [floatValue?, appendDigits_eq hlimit]
      obtain ⟨x, hx⟩ := exists_scale? m (p := power + digitsValue 0 ds) (by omega)
      simp [hx]

theorem floatValue?_ne_int (negative : Bool) (significand : Nat) (power : Int)
    (exponent : Option (Bool × List Nat)) (i : Int) :
    Literal.floatValue? negative significand power exponent ≠ some (.int i) := by
  have hmap : ∀ o : Option Float, (o.map fun x => Number.float (signed negative x)) ≠
      some (.int i) := by
    intro o ho
    obtain ⟨x, -, hx⟩ := Option.map_eq_some_iff.mp ho
    cases hx
  rcases exponent with _ | ⟨down, ds⟩
  · exact hmap _
  · rw [Literal.floatValue?]
    split
    split_ifs
    · exact hmap _
    · exact hmap _
    · exact (Option.some_ne_none _).symm
    · exact hmap (some 0)

/-- **A number with a fraction or an exponent is no integer.** -/
theorem Literal.value?_ne_int {l : Literal} (h : ¬l.Plain) (i : Int) :
    l.value? ≠ some (.int i) := by
  rw [value?]
  split
  rename_i n skipped _
  rw [if_neg]
  · exact floatValue?_ne_int _ _ _ _ i
  · rintro ⟨-, hfraction, hexponent⟩
    exact h ⟨List.isEmpty_iff.mp hfraction, Option.isNone_iff_eq_none.mp hexponent⟩

/-- **The text of a float that is not huge has a value.** -/
theorem exists_value?_floatText {x : Float} (h : Counted 38 x) :
    ∃ l n, Spells (floatText x).toList l ∧ l.value? = some n := by
  obtain ⟨f, hread, hmantissa, hexponent⟩ := h.read (by decide)
  obtain ⟨l, hl, -, hreach⟩ := exists_spells_write f
  have htop : f.neighbourhood.value.topExponent ≤ 28 :=
    Finite.topExponent_le hmantissa hexponent (by decide)
  obtain ⟨n, hn⟩ := Literal.exists_value? (l := l) (by omega)
  refine ⟨l, n, ?_, hn⟩
  rw [floatText, if_pos h.isFinite.1, hread]
  exact hl

end MarkdownIndex.Json
