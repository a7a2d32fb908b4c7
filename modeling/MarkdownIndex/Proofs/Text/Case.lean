import MarkdownIndex.Proofs.Text.Token
import MarkdownIndex.Text.Case

/-!
# Letter case: what lowering makes of a character

The tables of letters and of lower cases are looked up run by run, and what is wanted of them is
computed for whole runs: 185 runs stand for some fifteen hundred capital letters.

* `Ranges.hasRun`, `CaseRun.image`, `CaseRun.avoids` — a run lies in a table, is moved, and has no
  code point in common with another; `of_mem_lowerRuns` — so it is for every run of lower cases.
* `isAlphanumeric_eq_has` — ASCII characters are no exception from the table of letters, nor, by
  `lower_eq_shiftBy`, from that of lower cases.
* `LowersTo` — a character has a lower case of one character, which is alphanumeric just if it is
  itself, and has itself for its lower case.
* `lowersTo_shiftBy` — every character but the dotted capital `İ` has one.
-/

namespace MarkdownIndex.Text

/-! ## Runs as a whole -/

/-- The code points of a run. -/
def CaseRun.codes (r : CaseRun) : List Nat :=
  List.range' r.first ((r.last - r.first) / r.stride + 1) r.stride

/-- The run of the images. -/
def CaseRun.image (r : CaseRun) : CaseRun :=
  ⟨(r.first + r.shift).toNat, (r.last + r.shift).toNat, r.stride, -r.shift⟩

/-- The property holds of a run: it lies in the first interval that reaches as far, or else each of
its code points in some. -/
def Ranges.hasRun (t : Ranges) (r : CaseRun) : Bool :=
  (match t.find? fun i => Nat.ble r.last i.2 with
    | some i => Nat.ble i.1 r.first
    | none => false) || r.codes.all t.has

/-- Two runs have no code point in common: one is past the other, or they alternate. -/
def CaseRun.avoids (r q : CaseRun) : Bool :=
  Nat.blt r.last q.first || Nat.blt q.last r.first ||
    (Nat.beq q.stride 2 && Nat.beq ((r.first + q.first) % 2) 1 &&
      (Nat.beq r.stride 2 || Nat.beq r.first r.last))

variable {r q : CaseRun} {t : Ranges} {n : Nat}

theorem CaseRun.covers_iff :
    r.covers n = true ↔ r.first ≤ n ∧ n ≤ r.last ∧ (n - r.first) % r.stride = 0 := by
  simp only [covers, Bool.and_eq_true, decide_eq_true_eq, beq_iff_eq, and_assoc]

theorem CaseRun.mem_codes (h : r.covers n = true) : n ∈ r.codes := by
  obtain ⟨hfirst, hlast, hstride⟩ := covers_iff.mp h
  refine List.mem_range'.mpr ⟨(n - r.first) / r.stride, ?_, ?_⟩
  · exact Nat.lt_succ_of_le (Nat.div_le_div_right (Nat.sub_le_sub_right hlast _))
  · have hdiv := Nat.div_add_mod (n - r.first) r.stride
    omega

theorem Ranges.has_iff : t.has n = true ↔ ∃ i ∈ t, i.1 ≤ n ∧ n ≤ i.2 := by
  simp only [has, List.any_eq_true, Bool.and_eq_true, decide_eq_true_eq]

theorem Ranges.has_of_hasRun (h : t.hasRun r = true) (hn : r.covers n = true) :
    t.has n = true := by
  rw [hasRun, Bool.or_eq_true] at h
  rcases h with h | h
  · split at h
    · rename_i i hi
      have hreach := List.find?_some hi
      obtain ⟨hfirst, hlast, -⟩ := CaseRun.covers_iff.mp hn
      exact has_iff.mpr ⟨i, List.mem_of_find?_eq_some hi, Nat.le_trans (Nat.ble_eq.mp h) hfirst,
        Nat.le_trans hlast (Nat.ble_eq.mp hreach)⟩
    · cases h
  · exact List.all_eq_true.mp h n (CaseRun.mem_codes hn)

theorem CaseRun.covers_image (hshift : 0 ≤ r.first + r.shift) (h : r.covers n = true) :
    r.image.covers (n + r.shift).toNat = true := by
  obtain ⟨hfirst, hlast, hstride⟩ := covers_iff.mp h
  have hdiff : (n + r.shift).toNat - (r.first + r.shift).toNat = n - r.first := by omega
  refine covers_iff.mpr ⟨?_, ?_, ?_⟩
  · exact Int.toNat_le_toNat (by omega)
  · exact Int.toNat_le_toNat (by omega)
  · rw [image, hdiff, hstride]

theorem CaseRun.covers_eq_false_of_avoids (h : r.avoids q = true) (hn : r.covers n = true) :
    q.covers n = false := by
  obtain ⟨hfirst, hlast, hstride⟩ := covers_iff.mp hn
  simp only [avoids, Bool.or_eq_true, Bool.and_eq_true, Nat.blt_eq, Nat.beq_eq] at h
  rw [← Bool.not_eq_true, covers_iff]
  rintro ⟨hfirst', hlast', hstride'⟩
  rcases h with (h | h) | ⟨⟨htwo, hodd⟩, h | h⟩
  · omega
  · omega
  · rw [htwo] at hstride'
    rw [h] at hstride
    omega
  · rw [htwo] at hstride'
    omega

/-! ## The runs of lower cases -/

/-- What is computed of a run of lower cases. -/
def CaseRun.isLowering (r : CaseRun) : Bool :=
  decide (0 ≤ r.first + r.shift) && alphanumericRanges.hasRun r &&
    alphanumericRanges.hasRun r.image && !r.image.covers 304 && lowerRuns.all r.image.avoids

/-- **Lower cases are made of letters, and make letters** that none of the runs has. -/
theorem of_mem_lowerRuns (hr : r ∈ lowerRuns) :
    0 ≤ r.first + r.shift ∧ alphanumericRanges.hasRun r = true ∧
      alphanumericRanges.hasRun r.image = true ∧ r.image.covers 304 = false ∧
        ∀ q ∈ lowerRuns, r.image.avoids q = true := by
  have hall : lowerRuns.all CaseRun.isLowering = true := by decide +kernel
  have h := List.all_eq_true.mp hall r hr
  simp only [CaseRun.isLowering, Bool.and_eq_true, decide_eq_true_eq, Bool.not_eq_true',
    List.all_eq_true] at h
  obtain ⟨⟨⟨⟨hshift, hsource⟩, himage⟩, hdotted⟩, havoids⟩ := h
  exact ⟨hshift, hsource, himage, hdotted, havoids⟩

/-- Alphanumeric code points are those of characters. -/
theorem toNat_ofNat_of_has (h : alphanumericRanges.has n = true) : (Char.ofNat n).toNat = n := by
  have hall : (alphanumericRanges.all fun i =>
      Nat.ble i.2 0xD7FF || Nat.ble 0xE000 i.1 && Nat.ble i.2 0x10FFFF) = true := by decide +kernel
  obtain ⟨i, hi, hlow, hhigh⟩ := Ranges.has_iff.mp h
  have hvalid := List.all_eq_true.mp hall i hi
  simp only [Bool.or_eq_true, Bool.and_eq_true, Nat.ble_eq] at hvalid
  have hchar : n.isValidChar := by
    rw [Nat.isValidChar]
    omega
  rw [Char.ofNat, dif_pos hchar]
  rfl

/-! ## ASCII characters -/

/-- What holds of the 128 characters holds of every ASCII character. -/
theorem forall_ascii {P : Char → Prop} (h : ∀ n < 128, P (Char.ofNat n)) {c : Char}
    (hc : c.toNat < 128) : P c := by
  have hchar := h c.toNat hc
  rwa [Char.ofNat_toNat] at hchar

/-- The table of letters and numbers is right for ASCII characters as well. -/
theorem isAlphanumeric_eq_has (c : Char) : isAlphanumeric c = alphanumericRanges.has c.toNat := by
  rw [isAlphanumeric]
  split_ifs with hc
  · -- past the first three intervals there is nothing for ASCII
    have hrest : ((alphanumericRanges.drop 3).all fun i => Nat.ble 128 i.1) = true := by
      decide +kernel
    have hsplit : alphanumericRanges.has c.toNat =
        (Ranges.has [(48, 57), (65, 90), (97, 122)] c.toNat ||
          Ranges.has (alphanumericRanges.drop 3) c.toNat) := by
      rw [Ranges.has, Ranges.has, Ranges.has, ← List.any_append]
      rfl
    have hnone : Ranges.has (alphanumericRanges.drop 3) c.toNat = false := by
      rw [← Bool.not_eq_true, Ranges.has_iff]
      rintro ⟨i, hi, hlow, -⟩
      have hfar := Nat.ble_eq.mp (List.all_eq_true.mp hrest i hi)
      omega
    rw [hsplit, hnone, Bool.or_false]
    exact forall_ascii (P := fun c => isAsciiAlphanumeric c =
      Ranges.has [(48, 57), (65, 90), (97, 122)] c.toNat) (by decide +kernel) hc
  · rfl

theorem shiftBy_of_ascii {c : Char} (hc : c.toNat < 128) : shiftBy lowerRuns c = c.toLower := by
  -- past the run of the capital letters there is nothing for ASCII
  have hrest : ((lowerRuns.drop 1).all fun r => Nat.ble 128 r.first) = true := by decide +kernel
  have hnone : (lowerRuns.drop 1).find? (·.covers c.toNat) = none := by
    refine List.find?_eq_none.mpr fun r hr hcovers => ?_
    have hfar := Nat.ble_eq.mp (List.all_eq_true.mp hrest r hr)
    have hfirst := (CaseRun.covers_iff.mp hcovers).1
    omega
  have hfind : lowerRuns.find? (·.covers c.toNat) =
      [CaseRun.mk 65 90 1 32].find? (·.covers c.toNat) := by
    have hsplit : lowerRuns = [CaseRun.mk 65 90 1 32] ++ lowerRuns.drop 1 := rfl
    rw [hsplit, List.find?_append, hnone, Option.or_none]
  have hshift : shiftBy lowerRuns c = shiftBy [CaseRun.mk 65 90 1 32] c := by
    rw [shiftBy, shiftBy, hfind]
  rw [hshift]
  exact forall_ascii (P := fun c => shiftBy [CaseRun.mk 65 90 1 32] c = c.toLower)
    (by decide +kernel) hc

/-! ## Characters -/

/-- Lowering moves every character but one. -/
theorem lower_eq_shiftBy {c : Char} (hc : c ≠ 'İ') : lower c = [shiftBy lowerRuns c] := by
  have hcode : c.toNat ≠ 304 := by
    intro h
    apply hc
    rw [← Char.ofNat_toNat c, h]
  rw [lower]
  split_ifs with hascii
  · rw [shiftBy_of_ascii hascii]
  · rfl

/-- The second character is the lower case of the first: it is alphanumeric just if the first is, is
the same if that is not, and is a lower case of its own. -/
structure LowersTo (c d : Char) : Prop where
  /-- letters and numbers stay such -/
  isAlphanumeric_eq : isAlphanumeric d = isAlphanumeric c
  /-- other characters stay as they are -/
  eq_of_not : isAlphanumeric c = false → d = c
  /-- there is nothing more to lower -/
  lower_eq : lower d = [d]

theorem shiftBy_of_not_covered {runs : List CaseRun} {c : Char}
    (h : ∀ r ∈ runs, r.covers c.toNat = false) : shiftBy runs c = c := by
  have hnone : runs.find? (·.covers c.toNat) = none :=
    List.find?_eq_none.mpr fun r hr hcovers => by rw [h r hr] at hcovers; cases hcovers
  rw [shiftBy, hnone]

/-- A character that is moved becomes one that is not. -/
theorem lowersTo_shiftBy {c : Char} (hc : c ≠ 'İ') : LowersTo c (shiftBy lowerRuns c) := by
  cases hfind : lowerRuns.find? (·.covers c.toNat) with
  | none =>
    have hsame : shiftBy lowerRuns c = c := by rw [shiftBy, hfind]
    rw [hsame]
    exact ⟨rfl, fun _ => rfl, by rw [lower_eq_shiftBy hc, hsame]⟩
  | some r =>
    have hr := List.mem_of_find?_eq_some hfind
    have hcovers := List.find?_some hfind
    obtain ⟨hshift, hsource, himage, hdotted, havoids⟩ := of_mem_lowerRuns hr
    have hmoved := CaseRun.covers_image hshift hcovers
    have hletter := Ranges.has_of_hasRun himage hmoved
    have hcode : (shiftBy lowerRuns c).toNat = (c.toNat + r.shift).toNat := by
      rw [shiftBy, hfind, toNat_ofNat_of_has hletter]
    have halpha : isAlphanumeric c = true := by
      rw [isAlphanumeric_eq_has]
      exact Ranges.has_of_hasRun hsource hcovers
    refine ⟨?_, fun hnot => ?_, ?_⟩
    · rw [isAlphanumeric_eq_has, hcode, hletter, halpha]
    · rw [halpha] at hnot
      cases hnot
    · have hne : shiftBy lowerRuns c ≠ 'İ' := by
        intro h
        have hdot : (c.toNat + r.shift).toNat = 304 := by
          rw [← hcode, h]
          rfl
        rw [hdot, hdotted] at hmoved
        cases hmoved
      rw [lower_eq_shiftBy hne]
      refine congrArg (fun d => [d]) (shiftBy_of_not_covered fun q hq => ?_)
      rw [hcode]
      exact CaseRun.covers_eq_false_of_avoids (havoids q hq) hmoved

end MarkdownIndex.Text
