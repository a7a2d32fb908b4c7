import Mathlib.Tactic.Common
import MarkdownIndex.Text.Utf8

/-!
# UTF-8 read back: every text from its bytes, and bytes from their text

* `announced?_eq`, `leadBits_eq`, `secondBounds_iff` — what the decoder asks of a byte, said of its
  number.
* `step_encodeChar` — the bytes of a character are read as that character, whatever follows them.
* `decode?_encode`, `decodeWith_encode`, `decodeLossy_encode` — so is a whole text, by the strict
  and by the lenient decoder.
* `encodeChar_of_step` — a character that is read has been read from its own bytes.
* `decodeLossy_induction`, `encode_decodeLossy` — the lenient decoder reads characters and replaces
  what is between them; where it replaces nothing, the text has the bytes.
* `decodeLossy_append_cons` — at an ASCII byte a text is cut as its bytes are.
-/

namespace MarkdownIndex.Text

/-! ## Bytes as numbers -/

theorem toNat_toUInt8 {n : Nat} (h : n < 256) : n.toUInt8.toNat = n := by
  rw [Nat.toUInt8, UInt8.toNat_ofNat']
  omega

theorem announced?_eq (b : UInt8) : announced? b =
    if b.toNat < 0x80 then some 0
    else if 0xC2 ≤ b.toNat ∧ b.toNat < 0xE0 then some 1
    else if 0xE0 ≤ b.toNat ∧ b.toNat < 0xF0 then some 2
    else if 0xF0 ≤ b.toNat ∧ b.toNat < 0xF5 then some 3
    else none := rfl

theorem leadBits_eq (b : UInt8) : leadBits b =
    if b.toNat < 0x80 then b.toNat
    else if b.toNat < 0xE0 then b.toNat - 0xC0
    else if b.toNat < 0xF0 then b.toNat - 0xE0
    else b.toNat - 0xF0 := rfl

/-- The second byte continues a character, and some first bytes narrow it further. -/
theorem secondBounds_iff {a b : UInt8} :
    ((secondBounds a).1 ≤ b ∧ b ≤ (secondBounds a).2) ↔
      (0x80 ≤ b.toNat ∧ b.toNat < 0xC0) ∧ (a.toNat = 0xE0 → 0xA0 ≤ b.toNat) ∧
        (a.toNat = 0xED → b.toNat < 0xA0) ∧ (a.toNat = 0xF0 → 0x90 ≤ b.toNat) ∧
          (a.toNat = 0xF4 → b.toNat < 0x90) := by
  have hcases : ∀ n : UInt8, a = n ↔ a.toNat = n.toNat := fun n => UInt8.toNat_inj.symm
  unfold secondBounds
  split_ifs with h₁ h₂ h₃ h₄ <;>
    simp only [hcases, UInt8.le_iff_toNat_le, UInt8.reduceToNat] at * <;> omega

/-- A byte that continues a character holds six bits of it. -/
theorem continuation?_toUInt8 {n : Nat} (h : n < 64) :
    continuation? (0x80 + n).toUInt8 = some n := by
  have hb : (0x80 + n).toUInt8.toNat = 0x80 + n := toNat_toUInt8 (by omega)
  have hbounds : 0x80 ≤ (0x80 + n).toUInt8 ∧ (0x80 + n).toUInt8 < 0xC0 := by
    rw [UInt8.le_iff_toNat_le, UInt8.lt_iff_toNat_lt, hb]
    exact ⟨Nat.le_add_right 0x80 n, by show _ < 192; omega⟩
  rw [continuation?, if_pos hbounds, hb, Nat.add_sub_cancel_left]

/-! ## One character -/

variable {n : Nat} {rest : List UInt8}

theorem continueStep_toUInt8 {k : Nat} (read code m : Nat) (h : k < 64) :
    continueStep read code (m + 1) ((0x80 + k).toUInt8 :: rest) =
      continueStep (read + 1) (code * 64 + k) m rest := by
  simp only [continueStep, continuation?_toUInt8 h]

/-- The first two bytes of a character that has more than one. -/
theorem step_cons {lead k m : Nat} (ha : announced? lead.toUInt8 = some (m + 1)) (hk : k < 64)
    (hl : lead < 256)
    (h : (lead = 0xE0 → 0x20 ≤ k) ∧ (lead = 0xED → k < 0x20) ∧ (lead = 0xF0 → 0x10 ≤ k) ∧
      (lead = 0xF4 → k < 0x10)) :
    step lead.toUInt8 ((0x80 + k).toUInt8 :: rest) =
      continueStep 1 (leadBits lead.toUInt8 * 64 + k) m rest := by
  have hb : (0x80 + k).toUInt8.toNat = 0x80 + k := toNat_toUInt8 (by omega)
  have hbounds : (secondBounds lead.toUInt8).1 ≤ (0x80 + k).toUInt8 ∧
      (0x80 + k).toUInt8 ≤ (secondBounds lead.toUInt8).2 := by
    rw [secondBounds_iff, hb, toNat_toUInt8 hl]
    omega
  simp only [step, ha, hb, if_pos hbounds, Nat.add_sub_cancel_left]

/-- **The bytes of a character are read as that character.** -/
theorem step_encodeChar (c : Char) (rest : List UInt8) :
    ∃ b bs, encodeChar c = b :: bs ∧ step b (bs ++ rest) = .char c bs.length := by
  have hvalid : c.toNat < 0xD800 ∨ 0xDFFF < c.toNat ∧ c.toNat < 0x110000 := c.valid
  have hc : Char.ofNat c.toNat = c := Char.ofNat_toNat c
  generalize hn : c.toNat = n at hvalid hc
  unfold encodeChar
  simp only [hn]
  split_ifs with h₁ h₂ h₃
  · -- one byte
    refine ⟨_, [], rfl, ?_⟩
    have hb : n.toUInt8.toNat = n := toNat_toUInt8 (by omega)
    have ha : announced? n.toUInt8 = some 0 := by rw [announced?_eq, hb, if_pos h₁]
    simp only [step, ha, hb, hc, List.length_nil]
  · -- two bytes
    refine ⟨_, [_], rfl, ?_⟩
    have hb : (0xC0 + n / 64).toUInt8.toNat = 0xC0 + n / 64 := toNat_toUInt8 (by omega)
    have ha : announced? (0xC0 + n / 64).toUInt8 = some 1 := by
      rw [announced?_eq, hb, if_neg (by omega), if_pos (by omega)]
    rw [List.singleton_append, step_cons ha (by omega) (by omega) (by omega), continueStep,
      leadBits_eq, hb, if_neg (by omega), if_pos (by omega), ← hc]
    congr 2
    omega
  · -- three bytes
    refine ⟨_, [_, _], rfl, ?_⟩
    have hb : (0xE0 + n / 4096).toUInt8.toNat = 0xE0 + n / 4096 := toNat_toUInt8 (by omega)
    have ha : announced? (0xE0 + n / 4096).toUInt8 = some 2 := by
      rw [announced?_eq, hb, if_neg (by omega), if_neg (by omega), if_pos (by omega)]
    rw [List.cons_append, List.singleton_append,
      step_cons ha (by omega) (by omega) (by omega), continueStep_toUInt8 _ _ _ (by omega),
      continueStep, leadBits_eq, hb, if_neg (by omega), if_neg (by omega), if_pos (by omega), ← hc]
    congr 2
    omega
  · -- four bytes
    refine ⟨_, [_, _, _], rfl, ?_⟩
    have hb : (0xF0 + n / 262144).toUInt8.toNat = 0xF0 + n / 262144 := toNat_toUInt8 (by omega)
    have ha : announced? (0xF0 + n / 262144).toUInt8 = some 3 := by
      rw [announced?_eq, hb, if_neg (by omega), if_neg (by omega), if_neg (by omega),
        if_pos (by omega)]
    rw [List.cons_append, List.cons_append, List.singleton_append,
      step_cons ha (by omega) (by omega) (by omega), continueStep_toUInt8 _ _ _ (by omega),
      continueStep_toUInt8 _ _ _ (by omega), continueStep, leadBits_eq, hb, if_neg (by omega),
      if_neg (by omega), if_neg (by omega), ← hc]
    congr 2
    omega

/-! ## Whole texts -/

/-- An ASCII byte is the whole of a character, and never a part of another one. -/
theorem toNat_eq_of_mem_encodeChar {c : Char} {b : UInt8} (hb : b.toNat < 128)
    (h : b ∈ encodeChar c) : c.toNat = b.toNat := by
  have hvalid : c.toNat < 0xD800 ∨ 0xDFFF < c.toNat ∧ c.toNat < 0x110000 := c.valid
  have hbyte : ∀ {n : Nat}, n < 256 → b = n.toUInt8 → n = b.toNat := fun hn heq => by
    rw [heq, toNat_toUInt8 hn]
  -- of a character of several bytes each is beyond ASCII
  have hfirst : c.toNat < 0x80 := by
    by_contra hlarge
    simp only [encodeChar, if_neg hlarge] at h
    split_ifs at h <;> simp only [List.mem_cons, List.not_mem_nil, or_false] at h
    · rcases h with h | h <;> have := hbyte (by omega) h <;> omega
    · rcases h with h | h | h <;> have := hbyte (by omega) h <;> omega
    · rcases h with h | h | h | h <;> have := hbyte (by omega) h <;> omega
  simp only [encodeChar, if_pos hfirst, List.mem_singleton] at h
  exact hbyte (by omega) h

theorem encode_cons (c : Char) (cs : List Char) : encode (c :: cs) = encodeChar c ++ encode cs :=
  List.flatMap_cons

theorem encode_append (as bs : List Char) : encode (as ++ bs) = encode as ++ encode bs :=
  List.flatMap_append

theorem decodeFrom?_append (bs rest : List UInt8) :
    decodeFrom? bs.length (bs ++ rest) = decodeFrom? 0 rest := by
  induction bs with
  | nil => rfl
  | cons b bs ih => exact ih

theorem decodeWith_append (patch : List Char) (bs rest : List UInt8) :
    decodeWith patch bs.length (bs ++ rest) = decodeWith patch 0 rest := by
  induction bs with
  | nil => rfl
  | cons b bs ih => exact ih

/-- **A text is read back from its bytes.** -/
theorem decode?_encode (cs : List Char) : decode? (encode cs) = some cs := by
  induction cs with
  | nil => rfl
  | cons c cs ih =>
    obtain ⟨b, bs, hc, hstep⟩ := step_encodeChar c (encode cs)
    rw [decode?] at ih
    rw [encode_cons, hc, List.cons_append, decode?, decodeFrom?, hstep]
    simp only [decodeFrom?_append, ih, Option.map_some]

/-- So there is no other text with the same bytes. -/
theorem encode_injective : Function.Injective encode := fun as bs h => by
  have hsome : some as = some bs := by rw [← decode?_encode as, h, decode?_encode]
  exact Option.some.inj hsome

/-- **Nothing of it has to be patched.** -/
theorem decodeWith_encode (patch cs : List Char) : decodeWith patch 0 (encode cs) = cs := by
  induction cs with
  | nil => rfl
  | cons c cs ih =>
    obtain ⟨b, bs, hc, hstep⟩ := step_encodeChar c (encode cs)
    rw [encode_cons, hc, List.cons_append, decodeWith, hstep]
    simp only [decodeWith_append, ih]

theorem decodeLossy_encode (cs : List Char) : decodeLossy (encode cs) = cs :=
  decodeWith_encode _ cs

/-! ## What a character has been read from -/

section Read

variable {b : UInt8} {rest : List UInt8} {c : Char} {m k code read : Nat}

theorem toNat_ofNat_of_isValidChar {n : Nat} (h : n.isValidChar) : (Char.ofNat n).toNat = n := by
  rw [Char.ofNat, dif_pos h]
  rfl

theorem toUInt8_of_toNat_eq {n : Nat} (h : n = b.toNat) : n.toUInt8 = b := by
  rw [h]
  exact UInt8.ofNat_toNat

/-- How many bytes a first byte announces is told by where it lies. -/
theorem of_announced? (h : announced? b = some m) :
    (m = 0 ∧ b.toNat < 0x80) ∨ (m = 1 ∧ 0xC2 ≤ b.toNat ∧ b.toNat < 0xE0) ∨
      (m = 2 ∧ 0xE0 ≤ b.toNat ∧ b.toNat < 0xF0) ∨ (m = 3 ∧ 0xF0 ≤ b.toNat ∧ b.toNat < 0xF5) := by
  rw [announced?_eq] at h
  split_ifs at h <;> obtain rfl := Option.some.inj h <;> simp [*]

/-- The bytes that continue a character are read one by one. -/
theorem of_continueStep_succ (h : continueStep read code (m + 1) rest = .char c k) :
    ∃ b after n, rest = b :: after ∧ n < 64 ∧ b.toNat = 0x80 + n ∧
      continueStep (read + 1) (code * 64 + n) m after = .char c k := by
  cases rest with
  | nil => cases h
  | cons b after =>
    rw [continueStep, continuation?] at h
    split_ifs at h with hb
    · rw [UInt8.le_iff_toNat_le, UInt8.lt_iff_toNat_lt] at hb
      simp only [UInt8.reduceToNat] at hb
      exact ⟨b, after, b.toNat - 0x80, rfl, by omega, by omega, h⟩

/-- A character is its first byte, or that byte is followed by a second one within its bounds. -/
theorem of_step (h : step b rest = .char c k) :
    (announced? b = some 0 ∧ c = Char.ofNat b.toNat ∧ k = 0) ∨
      ∃ m a after n, announced? b = some (m + 1) ∧ rest = a :: after ∧ a.toNat = 0x80 + n ∧
        n < 64 ∧ (b.toNat = 0xE0 → 0x20 ≤ n) ∧ (b.toNat = 0xED → n < 0x20) ∧
          (b.toNat = 0xF0 → 0x10 ≤ n) ∧ (b.toNat = 0xF4 → n < 0x10) ∧
            continueStep 1 (leadBits b * 64 + n) m after = .char c k := by
  simp only [step] at h
  split at h
  · cases h
  · rename_i hzero
    obtain ⟨rfl, rfl⟩ := Step.char.inj h
    exact Or.inl ⟨hzero, rfl, rfl⟩
  · cases h
  · rename_i m a after hm
    split_ifs at h with hbounds
    · rw [secondBounds_iff] at hbounds
      exact Or.inr ⟨m, a, after, a.toNat - 0x80, hm, rfl, by omega, by omega, by omega, by omega,
        by omega, by omega, h⟩

/-- **A character is read from its own bytes.** -/
theorem encodeChar_of_step (h : step b rest = .char c k) :
    ∃ bs after, bs.length = k ∧ rest = bs ++ after ∧ encodeChar c = b :: bs := by
  rcases of_step h with ⟨hzero, rfl, rfl⟩ | ⟨m, a, after, n, hm, rfl, ha, hn, h⟩
  · -- one byte
    have hb : b.toNat < 0x80 := by simpa using of_announced? hzero
    have hcode := toNat_ofNat_of_isValidChar (n := b.toNat) (Or.inl (by omega))
    refine ⟨[], rest, rfl, rfl, ?_⟩
    simp only [encodeChar, hcode, if_pos hb, toUInt8_of_toNat_eq (Eq.refl b.toNat)]
  · obtain ⟨hE0, hED, hF0, hF4, h⟩ := h
    have hbits := leadBits_eq b
    rcases of_announced? hm with ⟨h', -⟩ | ⟨h', hb⟩ | ⟨h', hb⟩ | ⟨h', hb⟩
    · cases h'
    · -- two bytes
      obtain rfl : m = 0 := Nat.succ.inj h'
      rw [continueStep] at h
      obtain ⟨rfl, rfl⟩ := Step.char.inj h
      rw [if_neg (by omega), if_pos (by omega)] at hbits
      refine ⟨[a], after, rfl, rfl, ?_⟩
      generalize hcode : leadBits b * 64 + n = code
      have hvalue := toNat_ofNat_of_isValidChar (n := code) (Or.inl (by omega))
      simp only [encodeChar, hvalue]
      rw [if_neg (by omega), if_pos (by omega), toUInt8_of_toNat_eq (b := b) (by omega),
        toUInt8_of_toNat_eq (b := a) (by omega)]
    · -- three bytes
      obtain rfl : m = 1 := Nat.succ.inj h'
      obtain ⟨a₂, after, n₂, rfl, hn₂, ha₂, h⟩ := of_continueStep_succ h
      rw [continueStep] at h
      obtain ⟨rfl, rfl⟩ := Step.char.inj h
      rw [if_neg (by omega), if_neg (by omega), if_pos (by omega)] at hbits
      refine ⟨[a, a₂], after, rfl, rfl, ?_⟩
      generalize hcode : (leadBits b * 64 + n) * 64 + n₂ = code
      have hvalid : code.isValidChar := by unfold Nat.isValidChar; omega
      have hvalue := toNat_ofNat_of_isValidChar hvalid
      simp only [encodeChar, hvalue]
      rw [if_neg (by omega), if_neg (by omega), if_pos (by omega),
        toUInt8_of_toNat_eq (b := b) (by omega), toUInt8_of_toNat_eq (b := a) (by omega),
        toUInt8_of_toNat_eq (b := a₂) (by omega)]
    · -- four bytes
      obtain rfl : m = 2 := Nat.succ.inj h'
      obtain ⟨a₂, after, n₂, rfl, hn₂, ha₂, h⟩ := of_continueStep_succ h
      obtain ⟨a₃, after, n₃, rfl, hn₃, ha₃, h⟩ := of_continueStep_succ h
      rw [continueStep] at h
      obtain ⟨rfl, rfl⟩ := Step.char.inj h
      rw [if_neg (by omega), if_neg (by omega), if_neg (by omega)] at hbits
      refine ⟨[a, a₂, a₃], after, rfl, rfl, ?_⟩
      generalize hcode : ((leadBits b * 64 + n) * 64 + n₂) * 64 + n₃ = code
      have hvalid : code.isValidChar := by unfold Nat.isValidChar; omega
      have hvalue := toNat_ofNat_of_isValidChar hvalid
      simp only [encodeChar, hvalue]
      rw [if_neg (by omega), if_neg (by omega), if_neg (by omega),
        toUInt8_of_toNat_eq (b := b) (by omega), toUInt8_of_toNat_eq (b := a) (by omega),
        toUInt8_of_toNat_eq (b := a₂) (by omega), toUInt8_of_toNat_eq (b := a₃) (by omega)]

end Read

/-! ## Bytes that need not be a text -/

section Lossy

variable {a b : UInt8} {as bs : List UInt8} {c : Char} {read code m : Nat}

/-- The bytes of a step behind the first one. -/
def Step.further : Step → Nat
  | .char _ k => k
  | .bad k => k

/-- The character that a step gives. -/
def Step.shown : Step → Char
  | .char c _ => c
  | .bad _ => '\uFFFD'

theorem decodeWith_eq (k : Nat) (bs : List UInt8) :
    decodeWith ['\uFFFD'] k bs = decodeLossy (bs.drop k) := by
  induction k generalizing bs with
  | zero => rfl
  | succ k ih =>
    cases bs with
    | nil => rfl
    | cons b bs => exact ih bs

/-- Bytes are decoded step by step. -/
theorem decodeLossy_cons (b : UInt8) (bs : List UInt8) : decodeLossy (b :: bs) =
    (step b bs).shown :: decodeLossy (bs.drop (step b bs).further) := by
  rw [decodeLossy, decodeWith]
  split
  · rename_i hstep
    rw [hstep, decodeWith_eq]
    rfl
  · rename_i hstep
    rw [hstep, decodeWith_eq]
    rfl

/-- **Bytes are the bytes of characters, with stretches between them that are replaced.** -/
theorem decodeLossy_induction {P : List UInt8 → List Char → Prop} (nil : P [] [])
    (char : ∀ c bs, P bs (decodeLossy bs) → P (encodeChar c ++ bs) (c :: decodeLossy bs))
    (bad : ∀ as bs, P bs (decodeLossy bs) → P (as ++ bs) ('\uFFFD' :: decodeLossy bs))
    (bs : List UInt8) : P bs (decodeLossy bs) := by
  induction hlength : bs.length using Nat.strongRecOn generalizing bs with
  | ind l ih =>
    cases bs with
    | nil => exact nil
    | cons b bs =>
      have hdrop (k : Nat) : P (bs.drop k) (decodeLossy (bs.drop k)) :=
        ih _ (by rw [← hlength, List.length_drop, List.length_cons]; omega) _ rfl
      rw [decodeLossy_cons]
      cases hstep : step b bs with
      | char c k =>
        obtain ⟨after, rest, hk, rfl, hc⟩ := encodeChar_of_step hstep
        have hrest := hdrop k
        rw [← hk, List.drop_left] at hrest
        rw [Step.shown, Step.further, ← hk, List.drop_left, ← List.cons_append, ← hc]
        exact char c rest hrest
      | bad k =>
        have hbytes : b :: bs = (b :: bs.take k) ++ bs.drop k := by
          rw [List.cons_append, List.take_append_drop]
        rw [hbytes]
        exact bad _ _ (hdrop k)

/-- **Bytes of which nothing has to be replaced are those of their text.** -/
theorem encode_decodeLossy (h : '\uFFFD' ∉ decodeLossy bs) : encode (decodeLossy bs) = bs := by
  induction bs using decodeLossy_induction with
  | nil => rfl
  | char c bs ih => rw [encode_cons, ih fun hmem => h (List.mem_cons_of_mem c hmem)]
  | bad as bs ih => exact absurd List.mem_cons_self h

/-- An ASCII character of the text is one of the bytes. -/
theorem toUInt8_mem_of_mem_decodeLossy (hc : c.toNat < 128) (h : c ∈ decodeLossy bs) :
    c.toNat.toUInt8 ∈ bs := by
  induction bs using decodeLossy_induction with
  | nil => exact absurd h List.not_mem_nil
  | char d bs ih =>
    rcases List.mem_cons.mp h with rfl | h
    · refine List.mem_append_left _ ?_
      rw [encodeChar, if_pos (by omega)]
      exact List.mem_singleton_self _
    · exact List.mem_append_right _ (ih h)
  | bad as bs ih =>
    rcases List.mem_cons.mp h with rfl | h
    · exact absurd hc (by decide)
    · exact List.mem_append_right _ (ih h)

theorem further_continueStep_le :
    (continueStep read code m bs).further ≤ read + bs.length := by
  induction m generalizing read code bs with
  | zero => exact Nat.le_add_right read _
  | succ m ih =>
    cases bs with
    | nil => exact Nat.le_refl read
    | cons b bs =>
      rw [continueStep]
      split
      · exact Nat.le_trans ih (by rw [List.length_cons]; omega)
      · exact Nat.le_add_right read _

theorem further_step_le (b : UInt8) (bs : List UInt8) : (step b bs).further ≤ bs.length := by
  simp only [step]
  split
  · exact Nat.zero_le _
  · exact Nat.zero_le _
  · exact Nat.zero_le _
  · split
    · exact Nat.le_trans further_continueStep_le (by rw [List.length_cons]; omega)
    · exact Nat.zero_le _

/-- An ASCII byte continues no character. -/
theorem continueStep_append (hb : b.toNat < 128) :
    continueStep read code m (as ++ b :: bs) = continueStep read code m as := by
  induction m generalizing read code as with
  | zero => rfl
  | succ m ih =>
    cases as with
    | nil =>
      have hnone : continuation? b = none := by
        rw [continuation?, if_neg]
        rw [UInt8.le_iff_toNat_le]
        exact fun h => absurd h.1 (Nat.not_le.mpr hb)
      simp only [List.nil_append, continueStep, hnone]
    | cons a as =>
      rw [List.cons_append, continueStep, continueStep]
      cases continuation? a with
      | none => rfl
      | some n => exact ih

theorem step_append (hb : b.toNat < 128) : step a (as ++ b :: bs) = step a as := by
  simp only [step]
  cases hannounced : announced? a with
  | none => rfl
  | some m =>
    cases m with
    | zero => rfl
    | succ m =>
      cases as with
      | nil =>
        have hbounds : ¬ ((secondBounds a).1 ≤ b ∧ b ≤ (secondBounds a).2) := by
          rw [secondBounds_iff]
          omega
        simp only [List.nil_append, if_neg hbounds]
      | cons d as =>
        simp only [List.cons_append, continueStep_append hb]

/-- **A text is cut at an ASCII byte as its bytes are.** -/
theorem decodeLossy_append_cons (as : List UInt8) (hb : b.toNat < 128) (bs : List UInt8) :
    decodeLossy (as ++ b :: bs) = decodeLossy as ++ Char.ofNat b.toNat :: decodeLossy bs := by
  induction hlength : as.length using Nat.strongRecOn generalizing as with
  | ind l ih =>
    cases as with
    | nil =>
      have hzero : announced? b = some 0 := by rw [announced?_eq, if_pos hb]
      have hstep : step b bs = .char (Char.ofNat b.toNat) 0 := by simp only [step, hzero]
      rw [List.nil_append, decodeLossy_cons, hstep]
      rfl
    | cons a as =>
      have hle := further_step_le a as
      have hlt : (as.drop (step a as).further).length < l := by
        rw [← hlength, List.length_drop, List.length_cons]
        omega
      rw [List.cons_append, decodeLossy_cons, step_append hb, List.drop_append_of_le_length hle,
        ih _ hlt _ rfl, decodeLossy_cons, List.cons_append]

end Lossy

end MarkdownIndex.Text
