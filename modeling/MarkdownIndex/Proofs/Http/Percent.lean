import MarkdownIndex.Http.Url
import MarkdownIndex.Proofs.Text.Utf8

/-!
# Percent forms: what is written in a path reads as before

A text that is put into a path keeps its percent signs: only bytes that may not stand in a path are
written in percent form, and a percent sign may. So what is read back is what the text reads as,
which is the text itself only if nothing in it looks like a percent form.

* `percentDecode_percent`, `percentDecode_cons_of_ne` — reading, byte by byte.
* `length_percentDecode_le` — reading makes no text longer.
* `pathForm`, `encode_percentEncode` — the bytes of a text in a path.
* `percentDecode_percentEncode` — **a text in a path reads as it does by itself.**
-/

namespace MarkdownIndex.Http

open Text Url

/-! ## Reading -/

variable {b : UInt8} {bs : List UInt8} {cs : List Char}

theorem percentDecode_cons_of_ne (hb : b ≠ 37) : percentDecode (b :: bs) = b :: percentDecode bs := by
  rw [percentDecode]
  intro h l rest heq
  exact absurd heq hb

/-- A percent sign stands for itself unless two digits follow. -/
theorem percentDecode_percent (h : ∀ x y rest, bs = x :: y :: rest → hexPair? x y = none) :
    percentDecode (37 :: bs) = 37 :: percentDecode bs := by
  rcases bs with _ | ⟨x, _ | ⟨y, rest⟩⟩
  · rfl
  · rfl
  · rw [percentDecode, h x y rest rfl]

theorem percentDecode_pair {x y : UInt8} (h : hexPair? x y = some b) :
    percentDecode (37 :: x :: y :: bs) = b :: percentDecode bs := by
  rw [percentDecode, h]

/-- Reading makes no text longer. -/
theorem length_percentDecode_le (bs : List UInt8) : (percentDecode bs).length ≤ bs.length := by
  fun_induction percentDecode bs with
  | case1 x y rest b hpair ih =>
    rw [List.length_cons, List.length_cons, List.length_cons, List.length_cons]
    omega
  | case2 x y rest hpair ih =>
    rw [List.length_cons, List.length_cons]
    exact Nat.succ_le_succ ih
  | case3 b rest hne ih => exact Nat.succ_le_succ ih
  | case4 => exact Nat.le_refl 0

/-! ## Digits -/

/-- The byte of an upper-case digit. -/
def percentDigit (n : Nat) : UInt8 := (hexDigit n).toUpper.toNat.toUInt8

theorem encodeChar_hexDigit : ∀ n : Fin 16,
    encodeChar (hexDigit n).toUpper = [percentDigit n] := by
  decide

theorem hexValue?_percentDigit : ∀ n : Fin 16,
    hexValue? (charOfByte (percentDigit n)) = some n.val := by
  decide

theorem slash_ne_hexDigit : ∀ n : Fin 16, '/' ≠ (hexDigit n).toUpper := by
  decide

theorem toNat_div_lt (b : UInt8) : b.toNat / 16 < 16 := by
  have := b.toNat_lt
  omega

theorem toNat_mod_lt (b : UInt8) : b.toNat % 16 < 16 := Nat.mod_lt _ (by omega)

theorem encode_percentByte (b : UInt8) :
    encode (percentByte b) = [37, percentDigit (b.toNat / 16), percentDigit (b.toNat % 16)] := by
  have hhigh := encodeChar_hexDigit ⟨b.toNat / 16, toNat_div_lt b⟩
  have hlow := encodeChar_hexDigit ⟨b.toNat % 16, toNat_mod_lt b⟩
  rw [percentByte, encode_cons, encode_cons, encode_cons, hhigh, hlow]
  rfl

theorem hexPair?_percentDigit (b : UInt8) :
    hexPair? (percentDigit (b.toNat / 16)) (percentDigit (b.toNat % 16)) = some b := by
  have hhigh := hexValue?_percentDigit ⟨b.toNat / 16, toNat_div_lt b⟩
  have hlow := hexValue?_percentDigit ⟨b.toNat % 16, toNat_mod_lt b⟩
  have hsum : b.toNat / 16 * 16 + b.toNat % 16 = b.toNat := Nat.div_add_mod' b.toNat 16
  rw [hexPair?, hhigh, hlow]
  change some (b.toNat / 16 * 16 + b.toNat % 16).toUInt8 = some b
  rw [hsum]
  exact congrArg some UInt8.ofNat_toNat

/-! ## Texts in a path -/

/-- What holds of all numbers below 256 holds of all bytes. -/
theorem forall_byte {P : UInt8 → Prop} (h : ∀ n : Fin 256, P n.val.toUInt8) (b : UInt8) : P b := by
  have hb := h ⟨b.toNat, b.toNat_lt⟩
  rwa [Nat.toUInt8, UInt8.ofNat_toNat] at hb

/-- All that may stand in a path is ASCII. -/
theorem of_encodedInPath_eq_false : ∀ b : UInt8, encodedInPath b = false →
    encodeChar (charOfByte b) = [b] ∧ b.toNat < 128 :=
  forall_byte (by decide +kernel)

/-- Digits may. -/
theorem encodedInPath_of_hexValue? : ∀ b : UInt8, hexValue? (charOfByte b) ≠ none →
    encodedInPath b = false :=
  forall_byte (by decide +kernel)

theorem hexValue?_percent : hexValue? (charOfByte 37) = none := by decide

theorem hexValue?_of_hexPair? {x y : UInt8} (h : hexPair? x y ≠ none) :
    hexValue? (charOfByte x) ≠ none ∧ hexValue? (charOfByte y) ≠ none := by
  rw [hexPair?] at h
  constructor
  · intro hx
    rw [hx] at h
    exact h rfl
  · intro hy
    rw [hy] at h
    rcases hx : hexValue? (charOfByte x) with _ | n <;> rw [hx] at h <;> exact h rfl

/-- The bytes that a byte becomes in a path. -/
def pathForm (b : UInt8) : List UInt8 :=
  if encodedInPath b then [37, percentDigit (b.toNat / 16), percentDigit (b.toNat % 16)] else [b]

theorem pathForm_of_encoded (h : encodedInPath b = true) :
    pathForm b = [37, percentDigit (b.toNat / 16), percentDigit (b.toNat % 16)] := if_pos h

theorem pathForm_of_plain (h : encodedInPath b = false) : pathForm b = [b] := by
  rw [pathForm, h]
  rfl

/-- The first byte of a text in a path is the first of the text, or a percent sign. -/
theorem eq_or_of_pathForm {x : UInt8} {xs rest : List UInt8} (h : pathForm b ++ rest = x :: xs) :
    x = 37 ∨ x = b ∧ xs = rest := by
  cases hb : encodedInPath b with
  | true =>
    rw [pathForm_of_encoded hb] at h
    exact Or.inl (List.cons.inj h).1.symm
  | false =>
    rw [pathForm_of_plain hb] at h
    exact Or.inr ⟨(List.cons.inj h).1.symm, (List.cons.inj h).2.symm⟩

/-- Where no two digits stand in a text, none stand in a path. -/
theorem hexPair?_flatMap_pathForm (h : ∀ x y rest, bs = x :: y :: rest → hexPair? x y = none)
    {x y : UInt8} {rest : List UInt8} (heq : bs.flatMap pathForm = x :: y :: rest) :
    hexPair? x y = none := by
  by_contra hpair
  obtain ⟨hx, hy⟩ := hexValue?_of_hexPair? hpair
  rcases bs with _ | ⟨b, bs⟩
  · cases heq
  · rw [List.flatMap_cons] at heq
    rcases eq_or_of_pathForm heq with rfl | ⟨rfl, hrest⟩
    · exact hx hexValue?_percent
    · rcases bs with _ | ⟨c, bs⟩
      · cases hrest
      · rw [List.flatMap_cons] at hrest
        rcases eq_or_of_pathForm hrest.symm with rfl | ⟨rfl, -⟩
        · exact hy hexValue?_percent
        · exact hpair (h x y bs rfl)

/-- Reading undoes what has been done to bytes that may not stand in a path. -/
theorem percentDecode_flatMap_pathForm (bs : List UInt8) :
    percentDecode (bs.flatMap pathForm) = percentDecode bs := by
  have hpercent : pathForm 37 = [37] := pathForm_of_plain (by decide)
  have hplain : ∀ {b : UInt8}, hexValue? (charOfByte b) ≠ none → pathForm b = [b] := fun hb =>
    pathForm_of_plain (encodedInPath_of_hexValue? _ hb)
  -- the cases are those of reading the text by itself
  fun_induction percentDecode bs with
  | case1 x y rest b hpair ih =>
    obtain ⟨hx, hy⟩ := hexValue?_of_hexPair? (hpair ▸ Option.some_ne_none b)
    rw [List.flatMap_cons, List.flatMap_cons, List.flatMap_cons, hpercent, hplain hx, hplain hy]
    exact (percentDecode_pair hpair).trans (congrArg _ ih)
  | case2 x y rest hpair ih =>
    rw [List.flatMap_cons, hpercent, List.singleton_append, percentDecode_percent, ih]
    refine fun x' y' rest' heq => hexPair?_flatMap_pathForm (fun x'' y'' rest'' h => ?_) heq
    cases h
    exact hpair
  | case3 b rest hne ih =>
    rw [List.flatMap_cons]
    cases hb : encodedInPath b with
    | true =>
      rw [pathForm_of_encoded hb]
      exact (percentDecode_pair (hexPair?_percentDigit b)).trans (congrArg _ ih)
    | false =>
      rw [pathForm_of_plain hb, List.singleton_append]
      by_cases hsign : b = 37
      · subst hsign
        rw [percentDecode_percent, ih]
        refine fun x y rest' heq => hexPair?_flatMap_pathForm (fun x' y' rest'' h => ?_) heq
        exact absurd h (hne x' y' rest'' rfl)
      · rw [percentDecode_cons_of_ne hsign, ih]
  | case4 => rfl

theorem encode_flatMap {α : Type} (f : α → List Char) (as : List α) :
    encode (as.flatMap f) = as.flatMap fun a => encode (f a) := by
  rw [encode, List.flatMap_assoc]
  rfl

theorem encode_percentEncode (cs : List Char) :
    encode (percentEncode encodedInPath cs) = (encode cs).flatMap pathForm := by
  rw [percentEncode, encode_flatMap]
  refine congrArg (fun f => (encode cs).flatMap f) (funext fun b => ?_)
  cases hb : encodedInPath b with
  | true =>
    rw [pathForm_of_encoded hb, ← encode_percentByte]
    rfl
  | false =>
    rw [pathForm_of_plain hb, ← (of_encodedInPath_eq_false b hb).1]
    exact List.append_nil _

/-- **A text in a path reads as it does by itself.** -/
theorem percentDecode_percentEncode (cs : List Char) :
    percentDecode (encode (percentEncode encodedInPath cs)) = percentDecode (encode cs) := by
  rw [encode_percentEncode, percentDecode_flatMap_pathForm]

/-- No slash comes into a text that is put in a path. -/
theorem slash_not_mem_percentEncode (h : '/' ∉ cs) : '/' ∉ percentEncode encodedInPath cs := by
  intro hslash
  obtain ⟨b, hb, hmem⟩ := List.mem_flatMap.mp hslash
  split at hmem
  · rcases List.mem_cons.mp hmem with heq | hmem
    · cases heq
    · rcases List.mem_cons.mp hmem with heq | hmem
      · exact slash_ne_hexDigit ⟨b.toNat / 16, toNat_div_lt b⟩ heq
      · exact slash_ne_hexDigit ⟨b.toNat % 16, toNat_mod_lt b⟩ (List.mem_singleton.mp hmem)
  · rename_i hencoded
    obtain ⟨-, hascii⟩ := of_encodedInPath_eq_false b (Bool.eq_false_iff.mpr hencoded)
    obtain ⟨c, hc, hbyte⟩ := List.mem_flatMap.mp hb
    have hchar : '/' = c := by
      rw [List.mem_singleton.mp hmem, charOfByte, ← toNat_eq_of_mem_encodeChar hascii hbyte,
        Char.ofNat_toNat]
    exact h (hchar ▸ hc)

end MarkdownIndex.Http
