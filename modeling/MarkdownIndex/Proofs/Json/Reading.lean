import Mathlib.Tactic.Common
import MarkdownIndex.Json.Decode
import MarkdownIndex.Proofs.Json.Number
import MarkdownIndex.Proofs.Json.Spelling
import MarkdownIndex.Proofs.Text.Utf8
import MarkdownIndex.Text.Blank

/-!
# JSON read back: a text as the tree of its value

Every text of a value is read into one tree, wherever white space stands in it and however the
characters of its strings are written. Nothing is lost on the way but the exact value of a float, of
which the text tells no more than its decimal says. So the tree of a text is described number by
number, and all else is as it was.

* `exists_units`, `scanString?_append` — a character and a string, whichever way they are written.
* `Number.tree`, `tree` — the tree that the text of a number, or of a value, is read as.
* `readValue_append` — **a text of a value is read as its tree,** whatever closes it.
* `decode?_of_hasText`, `decode?_compactChars` — so what a decoder makes of a text it makes of the
  tree.
* `scanUnits?_patch`, `textOfUnits?_patch` — bytes that are no text can be skipped in a string, but
  not read; `decodeBytes?_encode` — a text is decoded from its bytes.
-/

namespace MarkdownIndex.Json

open Decimal

variable {cs ds es rest r : List Char} {l : Literal} {fuel : Nat} {first : Bool}

/-! ## Strings -/

/-- A character that is escaped by name. -/
theorem scanUnits?_named {k e : Char} (he : namedEscape? k = some e) (cs : List Char) :
    scanUnits? ('\\' :: k :: cs) =
      (scanUnits? cs).map (Prod.map (.char e :: ·) id) := by
  have hk : k ≠ 'u' := by
    rintro rfl
    cases he
  cases hcs : scanUnits? cs with
  | none => simp [scanUnits?, hk, he, hcs]
  | some found => simp [scanUnits?, hk, he, hcs, Prod.map]

/-- A unit that is spelled by its number. -/
theorem scanUnits?_hex {x y z w : Char} {n : Nat} (h : hexUnit? x y z w = some n)
    (cs : List Char) :
    scanUnits? ('\\' :: 'u' :: x :: y :: z :: w :: cs) =
      (scanUnits? cs).map (Prod.map (.code n :: ·) id) := by
  cases hcs : scanUnits? cs with
  | none => simp [scanUnits?, h, hcs]
  | some found => simp [scanUnits?, h, hcs, Prod.map]

/-- A character that stands for itself. -/
theorem scanUnits?_cons {c : Char} (hquote : c ≠ '\"') (hslash : c ≠ '\\') (hc : 32 ≤ c.toNat)
    (cs : List Char) :
    scanUnits? (c :: cs) = (scanUnits? cs).map (Prod.map (.char c :: ·) id) := by
  cases hcs : scanUnits? cs with
  | none => simp [scanUnits?, hslash, Nat.not_lt.mpr hc, hcs]
  | some found => simp [scanUnits?, hslash, Nat.not_lt.mpr hc, hcs, Prod.map]

/-- A unit that is no surrogate is a character. -/
theorem textOfUnits?_code {n : Nat} (h : ¬(0xD800 ≤ n ∧ n < 0xE000)) (us : List StringUnit) :
    textOfUnits? (.code n :: us) = (textOfUnits? us).map (Char.ofNat n :: ·) := by
  have hlead : ¬(0xD800 ≤ n ∧ n < 0xDC00) := by omega
  have htrail : ¬(0xDC00 ≤ n ∧ n < 0xE000) := by omega
  match us with
  | .code m :: us => rw [textOfUnits?, if_neg hlead, if_neg htrail]
  | .char c :: us => simp only [textOfUnits?, if_neg h]
  | [] => simp only [textOfUnits?, if_neg h]

/-- Two surrogates are one character. -/
theorem textOfUnits?_pair {n : Nat} (h : 0x10000 ≤ n) (h' : n < 0x110000) (us : List StringUnit) :
    textOfUnits? (.code (0xD800 + (n - 0x10000) / 0x400) ::
        .code (0xDC00 + (n - 0x10000) % 0x400) :: us) =
      (textOfUnits? us).map (Char.ofNat n :: ·) := by
  have hnumber : 0x10000 + (0xD800 + (n - 0x10000) / 0x400 - 0xD800) * 0x400 +
      (0xDC00 + (n - 0x10000) % 0x400 - 0xDC00) = n := by omega
  rw [textOfUnits?, if_pos (by omega), if_pos (by omega), hnumber]

/-- **A character is read as units that stand for it,** whichever way it is written. -/
theorem exists_units {c : Char} (h : CharText c cs) : ∃ us : List StringUnit,
    (∀ rest, scanUnits? (cs ++ rest) = (scanUnits? rest).map (Prod.map (us ++ ·) id)) ∧
      ∀ vs, textOfUnits? (us ++ vs) = (textOfUnits? vs).map (c :: ·) := by
  have hvalid : c.toNat < 0xD800 ∨ 0xDFFF < c.toNat ∧ c.toNat < 0x110000 := c.valid
  cases h with
  | plain hc hquote hslash =>
    exact ⟨[.char c], scanUnits?_cons hquote hslash hc, fun vs => by simp [textOfUnits?]⟩
  | named h => exact ⟨[.char c], scanUnits?_named h, fun vs => by simp [textOfUnits?]⟩
  | code h =>
    refine ⟨[.code c.toNat], scanUnits?_hex h, fun vs => ?_⟩
    rw [List.singleton_append, textOfUnits?_code (by omega), Char.ofNat_toNat]
  | pair hc h h' =>
    refine ⟨[.code (0xD800 + (c.toNat - 0x10000) / 0x400),
      .code (0xDC00 + (c.toNat - 0x10000) % 0x400)], fun rest => ?_, fun vs => ?_⟩
    · have htrail := scanUnits?_hex h' rest
      exact (scanUnits?_hex h _).trans ((congrArg _ htrail).trans (Option.map_map _ _ _))
    · rw [List.cons_append, List.singleton_append, textOfUnits?_pair hc (by omega),
        Char.ofNat_toNat]

/-- So are the characters of a string, up to its closing quote. -/
theorem exists_units_of_charsText {s : List Char} (h : CharsText s cs) : ∃ us : List StringUnit,
    (∀ rest, scanUnits? (cs ++ '\"' :: rest) = some (us, rest)) ∧ textOfUnits? us = some s := by
  induction h with
  | nil => exact ⟨[], fun rest => by simp [scanUnits?], rfl⟩
  | cons hc hs ih =>
    obtain ⟨us, hscan, htext⟩ := exists_units hc
    obtain ⟨vs, hrest, hvs⟩ := ih
    refine ⟨us ++ vs, fun rest => ?_, ?_⟩
    · rw [List.append_assoc, hscan, hrest]
      rfl
    · rw [htext, hvs]
      rfl

/-- **A string is read back from between its quotes.** -/
theorem scanString?_append {s : String} (h : CharsText s.toList cs) (rest : List Char) :
    scanString? (cs ++ '\"' :: rest) = some (some s, rest) := by
  obtain ⟨us, hscan, htext⟩ := exists_units_of_charsText h
  simp [scanString?, hscan, htext]

/-! ## Beginnings -/

/-- A character that a value begins with: it is no white space of any kind, and it closes or
continues nothing. -/
def Opens (c : Char) : Prop := Text.isBlank c = false ∧ c ≠ ']' ∧ c ≠ '\x7d'

instance (c : Char) : Decidable (Opens c) := inferInstanceAs (Decidable (_ ∧ _))

theorem isBlank_of_isSpace {c : Char} (h : isSpace c = true) : Text.isBlank c = true := by
  simp only [isSpace, Bool.or_eq_true, beq_iff_eq] at h
  obtain ((rfl | rfl) | rfl) | rfl := h
  all_goals rfl

theorem Opens.isSpace_eq_false {c : Char} (h : Opens c) : isSpace c = false :=
  Bool.eq_false_iff.mpr fun hspace => Bool.eq_false_iff.mp h.1 (isBlank_of_isSpace hspace)

theorem skipSpace_cons {c : Char} (h : isSpace c = false) (cs : List Char) :
    skipSpace (c :: cs) = c :: cs :=
  List.dropWhile_cons_of_neg (by rw [h]; exact Bool.false_ne_true)

/-- A number begins with its sign or a digit. -/
theorem exists_cons_of_scanNumber? (h : scanNumber? cs = some (l, r)) :
    ∃ c ds, cs = c :: ds ∧ (c = '-' ∨ c.isDigit = true) := by
  match cs with
  | [] => cases h
  | c :: ds =>
    refine ⟨c, ds, rfl, Decidable.byContradiction fun hc => ?_⟩
    obtain ⟨hsign, hdigit⟩ := not_or.mp hc
    have hwhole : scanWhole? (c :: ds) = none := by
      simp [scanWhole?, scanDigits, hdigit]
    simp [scanNumber?, hsign, hwhole] at h

theorem opens_of_isDigit {c : Char} (h : c = '-' ∨ c.isDigit = true) : Opens c := by
  have hbounds : 45 ≤ c.toNat ∧ c.toNat ≤ 57 := by
    rcases h with rfl | h
    · decide
    · have hdigit : 48 ≤ c.toNat ∧ c.toNat ≤ 57 := Char.isDigit_iff_toNat.mp h
      omega
  refine ⟨Bool.eq_false_iff.mpr fun hblank => ?_, ?_, ?_⟩
  · simp only [Text.isBlank, Bool.or_eq_true, Bool.and_eq_true, decide_eq_true_eq,
      beq_iff_eq] at hblank
    omega
  · rintro rfl
    exact absurd hbounds (by decide)
  · rintro rfl
    exact absurd hbounds (by decide)

theorem exists_cons_text (n : Number) : ∃ c cs, n.text.toList = c :: cs ∧ Opens c := by
  obtain h | ⟨l, hl⟩ := n.exists_spells
  · rw [h]
    exact ⟨_, _, rfl, by decide⟩
  · obtain ⟨c, ds, hcons, hc⟩ := exists_cons_of_scanNumber? (hl [] closes_nil)
    rw [List.append_nil] at hcons
    exact ⟨c, ds, hcons, opens_of_isDigit hc⟩

/-- The text of a value begins where the value does. -/
theorem exists_cons_of_valueText {v : Json} (h : ValueText v cs) :
    ∃ c r, cs = c :: r ∧ Opens c := by
  cases h with
  | null => exact ⟨_, _, rfl, by decide⟩
  | bool b =>
    cases b with
    | true => exact ⟨_, _, rfl, by decide⟩
    | false => exact ⟨_, _, rfl, by decide⟩
  | number n => exact exists_cons_text n
  | string h =>
    obtain ⟨ds, -, rfl⟩ := h
    exact ⟨_, _, rfl, by decide⟩
  | array => exact ⟨_, _, rfl, by decide⟩
  | object => exact ⟨_, _, rfl, by decide⟩

/-- White space before a token is skipped. -/
theorem skipSpace_of_spaced (h : Spaced cs ds) : skipSpace cs = skipSpace ds := by
  obtain ⟨sp, hsp, rfl⟩ := h
  exact List.dropWhile_append_of_pos (List.all_eq_true.mp hsp)

/-- White space closes a number. -/
theorem closes_of_isSpace {c : Char} (h : isSpace c = true) (cs : List Char) :
    Closes (c :: cs) := by
  simp only [isSpace, Bool.or_eq_true, beq_iff_eq] at h
  obtain ((rfl | rfl) | rfl) | rfl := h
  all_goals exact closes_cons (by decide)

/-- What closes a number does so with white space before it, too. -/
theorem closes_of_spaced (h : Spaced cs ds) (hds : Closes ds) : Closes cs := by
  obtain ⟨sp, hsp, rfl⟩ := h
  cases sp with
  | nil => exact hds
  | cons c sp => exact closes_of_isSpace (List.all_eq_true.mp hsp c List.mem_cons_self) _

/-! ## Numbers -/

/-- The tree of a number as its own text is read: what is not finite is `null`. -/
def Number.tree (n : Number) : Node := (Node.read n.text.toList).1

theorem readValue_of_scanNumber? (h : scanNumber? cs = some (l, r)) :
    readValue (fuel + 1) cs = (.number l.value?, some r) := by
  obtain ⟨c, ds, rfl, hc⟩ := exists_cons_of_scanNumber? h
  rw [readValue, skipSpace_cons (opens_of_isDigit hc).isSpace_eq_false]
  split
  case h_7 => rw [h]
  all_goals
    rename_i heq
    obtain ⟨rfl, -⟩ := List.cons.inj heq
    exact absurd hc (by decide)

theorem Number.tree_of_spells {n : Number} (h : Spells n.text.toList l) :
    n.tree = .number l.value? := by
  have hscan := h [] closes_nil
  rw [List.append_nil] at hscan
  have hread : Node.read n.text.toList = (.number l.value?, some []) :=
    readValue_of_scanNumber? hscan
  rw [tree, hread]

/-- **A number is read back from its text,** as far as a text can tell it. -/
theorem readValue_text (n : Number) (hrest : Closes rest) :
    readValue (fuel + 1) (n.text.toList ++ rest) = (n.tree, some rest) := by
  obtain h | ⟨l, hl⟩ := n.exists_spells
  · rw [Number.tree, h]
    rfl
  · rw [Number.tree_of_spells hl]
    exact readValue_of_scanNumber? (hl rest hrest)

/-- An integer of 64 bits is told exactly. -/
theorem Number.tree_int {n : Int} (hl : -(twoTo 63 : Int) ≤ n) (hg : n < twoTo 64) :
    (Number.int n).tree = .number (some (.int n)) := by
  have hspells : Spells (Number.int n).text.toList _ := spells_int n
  rw [tree_of_spells hspells, value?_int hl hg]

/-! ## Trees of texts -/

mutual

/-- The tree that the text of a value is read as. -/
def tree : Json → Node
  | .null => .null
  | .bool b => .bool b
  | .number n => n.tree
  | .string s => .string (some s)
  | .array items => .array (itemTrees items)
  | .object members => .object (memberTrees members)

/-- The trees of the items of an array. -/
def itemTrees : List Json → List Node
  | [] => []
  | v :: vs => v.tree :: itemTrees vs

/-- The trees of the members of an object. -/
def memberTrees : List (String × Json) → List (Option String × Node)
  | [] => []
  | (k, v) :: ms => (some k, v.tree) :: memberTrees ms

end

/-! ## One step of the reader -/

theorem readValue_of_spaced (h : Spaced cs ds) :
    readValue (fuel + 1) cs = readValue (fuel + 1) ds := by
  rw [readValue, readValue, skipSpace_of_spaced h]

theorem readItems_close (h : Spaced cs (']' :: r)) :
    readItems (fuel + 1) first cs = ([], some r) := by
  unfold readItems
  rw [skipSpace_of_spaced h, skipSpace_cons rfl]
  cases first <;> rfl

/-- An item is read where the white space before it begins, or later. -/
theorem readItems_of_separated {c : Char} (h : Separated first cs (c :: r)) (hc : Opens c) :
    ∃ ds, Spaced ds (c :: r) ∧ readItems (fuel + 1) first cs = readItem fuel ds := by
  cases first with
  | true =>
    refine ⟨c :: r, spaced_rfl _, ?_⟩
    unfold readItems
    rw [skipSpace_of_spaced h, skipSpace_cons hc.isSpace_eq_false]
    split
    · rename_i heq
      exact absurd (List.cons.inj heq).1 hc.2.1
    · rename_i hfirst
      cases hfirst
    · rfl
    · rename_i hfirst _ _
      cases hfirst
  | false =>
    obtain ⟨ds, hcomma, hds⟩ := h
    refine ⟨ds, hds, ?_⟩
    unfold readItems
    rw [skipSpace_of_spaced hcomma, skipSpace_cons rfl]
    rfl

theorem readItem_eq {n : Node} (h : readValue fuel cs = (n, some r)) :
    readItem (fuel + 1) cs =
      (n :: (readItems fuel false r).1, (readItems fuel false r).2) := by
  rw [readItem, h]

theorem readMembers_close (h : Spaced cs ('\x7d' :: r)) :
    readMembers (fuel + 1) first cs = ([], some r) := by
  unfold readMembers
  rw [skipSpace_of_spaced h, skipSpace_cons rfl]
  cases first <;> rfl

/-- A member is read where its name begins. -/
theorem readMembers_of_separated (h : Separated first cs ('\"' :: r)) :
    readMembers (fuel + 1) first cs = readMember fuel ('\"' :: r) := by
  cases first with
  | true =>
    unfold readMembers
    rw [skipSpace_of_spaced h, skipSpace_cons rfl]
    rfl
  | false =>
    obtain ⟨ds, hcomma, hds⟩ := h
    have hskip : skipSpace ds = '\"' :: r := (skipSpace_of_spaced hds).trans (skipSpace_cons rfl r)
    unfold readMembers
    rw [skipSpace_of_spaced hcomma, skipSpace_cons rfl]
    simp only [hskip]

theorem readMember_eq {k : String} {n : Node} (hk : CharsText k.toList ds)
    (hcolon : Spaced es (':' :: cs)) (h : readValue fuel cs = (n, some r)) :
    readMember (fuel + 1) ('\"' :: (ds ++ '\"' :: es)) =
      ((some k, n) :: (readMembers fuel false r).1, (readMembers fuel false r).2) := by
  have hskip : skipSpace es = ':' :: cs :=
    (skipSpace_of_spaced hcolon).trans (skipSpace_cons rfl cs)
  simp only [readMember, scanString?_append hk, hskip, h]

theorem readValue_string {s : String} (h : CharsText s.toList cs) (rest : List Char) :
    readValue (fuel + 1) ('\"' :: (cs ++ '\"' :: rest)) = (.string (some s), some rest) := by
  have hskip := skipSpace_cons (c := '\"') rfl (cs ++ '\"' :: rest)
  simp only [readValue, hskip, scanString?_append h]

theorem readValue_array {items : List Node}
    (h : readItems fuel true cs = (items, some rest)) :
    readValue (fuel + 1) ('[' :: cs) = (.array items, some rest) := by
  have hskip := skipSpace_cons (c := '[') rfl cs
  simp only [readValue, hskip, h]

theorem readValue_object {members : List (Option String × Node)}
    (h : readMembers fuel true cs = (members, some rest)) :
    readValue (fuel + 1) ('\x7b' :: cs) = (.object members, some rest) := by
  have hskip := skipSpace_cons (c := '\x7b') rfl cs
  simp only [readValue, hskip, h]

/-! ## Whole values -/

theorem length_pos_of_valueText {v : Json} (h : ValueText v cs) : 0 < cs.length := by
  obtain ⟨c, r, rfl, -⟩ := exists_cons_of_valueText h
  exact Nat.succ_pos _

/-- What follows an item closes it, and is not empty. -/
theorem closes_of_itemsText {items : List Json} (h : ItemsText false items cs) :
    0 < cs.length ∧ ∀ rest, Closes (cs ++ rest) := by
  cases h with
  | close h =>
    exact ⟨h.length_le, fun rest => closes_of_spaced (h.append rest) (closes_cons (by decide))⟩
  | item hv hvs h =>
    obtain ⟨r, hcomma, -⟩ := h
    exact ⟨(Nat.succ_pos _).trans_le hcomma.length_le, fun rest =>
      closes_of_spaced (hcomma.append rest) (closes_cons (by decide))⟩

/-- So does what follows a member. -/
theorem closes_of_membersText {members : List (String × Json)} (h : MembersText false members cs) :
    0 < cs.length ∧ ∀ rest, Closes (cs ++ rest) := by
  cases h with
  | close h =>
    exact ⟨h.length_le, fun rest => closes_of_spaced (h.append rest) (closes_cons (by decide))⟩
  | member hk hv hms hr hcolon h =>
    obtain ⟨r, hcomma, -⟩ := h
    exact ⟨(Nat.succ_pos _).trans_le hcomma.length_le, fun rest =>
      closes_of_spaced (hcomma.append rest) (closes_cons (by decide))⟩

mutual

/-- **A value is read back from each of its texts,** whatever closes it. -/
theorem readValue_append : ∀ (v : Json) (cs : List Char) (fuel : Nat) (rest : List Char),
    ValueText v cs → Closes rest → 2 * cs.length ≤ fuel →
      readValue fuel (cs ++ rest) = (v.tree, some rest)
  | v, cs, 0, rest, h, _, hfuel => by
    have := length_pos_of_valueText h
    omega
  | .null, _, n + 1, rest, .null, _, _ => rfl
  | .bool b, _, n + 1, rest, .bool _, _, _ => by cases b <;> rfl
  | .number x, _, n + 1, rest, .number _, hrest, _ => readValue_text x hrest
  | .string s, _, n + 1, rest, .string h, _, _ => by
    obtain ⟨ds, hds, rfl⟩ := h
    rw [List.cons_append, List.append_assoc]
    exact readValue_string hds rest
  | .array items, _, n + 1, rest, .array h, _, hfuel => by
    rw [List.length_cons] at hfuel
    exact readValue_array (readItems_append items true _ n rest h (by omega))
  | .object members, _, n + 1, rest, .object h, _, hfuel => by
    rw [List.length_cons] at hfuel
    exact readValue_object (readMembers_append members true _ n rest h (by omega))

/-- So are the items of an array, and its closing bracket. -/
theorem readItems_append : ∀ (items : List Json) (first : Bool) (cs : List Char) (fuel : Nat)
    (rest : List Char), ItemsText first items cs → 2 * cs.length ≤ fuel →
      readItems fuel first (cs ++ rest) = (itemTrees items, some rest)
  | [], first, cs, fuel, rest, .close h, hfuel => by
    have hlength : 1 ≤ cs.length := h.length_le
    obtain ⟨n, rfl⟩ : ∃ n, fuel = n + 1 := ⟨fuel - 1, by omega⟩
    exact readItems_close (h.append rest)
  | v :: vs, first, cs, fuel, rest, @ItemsText.item _ _ _ _ ds es hv hvs h, hfuel => by
    have hvalue := readValue_append v ds
    have hitems := readItems_append vs false es
    obtain ⟨c, r, hcons, hc⟩ := exists_cons_of_valueText hv
    obtain ⟨hes, hcloses⟩ := closes_of_itemsText hvs
    have hds : ds.length = r.length + 1 := by rw [hcons, List.length_cons]
    have hlength : ds.length + es.length ≤ cs.length := List.length_append ▸ h.length_le
    obtain ⟨n, rfl⟩ : ∃ n, fuel = n + 1 + 1 + 1 := ⟨fuel - 3, by omega⟩
    have hsep : Separated first (cs ++ rest) (ds ++ (es ++ rest)) :=
      List.append_assoc ds es rest ▸ h.append rest
    rw [hcons, List.cons_append] at hsep
    obtain ⟨bs, hbs, hread⟩ := readItems_of_separated hsep hc
    have hitem : readValue (n + 1) bs = (v.tree, some (es ++ rest)) := by
      rw [readValue_of_spaced hbs, ← List.cons_append, ← hcons]
      exact hvalue (n + 1) (es ++ rest) hv (hcloses rest) (by omega)
    rw [hread, readItem_eq hitem, hitems (n + 1) rest hvs (by omega), itemTrees]

/-- So are the members of an object, and its closing brace. -/
theorem readMembers_append : ∀ (members : List (String × Json)) (first : Bool) (cs : List Char)
    (fuel : Nat) (rest : List Char), MembersText first members cs → 2 * cs.length ≤ fuel →
      readMembers fuel first (cs ++ rest) = (memberTrees members, some rest)
  | [], first, cs, fuel, rest, .close h, hfuel => by
    have hlength : 1 ≤ cs.length := h.length_le
    obtain ⟨n, rfl⟩ : ∃ n, fuel = n + 1 := ⟨fuel - 1, by omega⟩
    exact readMembers_close (h.append rest)
  | (k, v) :: ms, first, cs, fuel, rest,
      @MembersText.member _ _ _ _ _ ks colon ts ds es hk hv hms hr hcolon h, hfuel => by
    have hvalue := readValue_append v ds
    have hmembers := readMembers_append ms false es
    obtain ⟨as, has, rfl⟩ := hk
    obtain ⟨hes, hcloses⟩ := closes_of_membersText hms
    have hds := length_pos_of_valueText hv
    have hlength : 2 + (ds.length + es.length) < cs.length := by
      have hname := h.length_le
      have hafter := hcolon.length_le
      have hvalues := hr.length_le
      rw [List.length_append] at hvalues
      rw [List.length_cons] at hafter
      rw [List.length_append, List.length_cons, List.length_append, List.length_singleton] at hname
      omega
    obtain ⟨n, rfl⟩ : ∃ n, fuel = n + 1 + 1 + 1 := ⟨fuel - 3, by omega⟩
    have hsep : Separated first (cs ++ rest) ('\"' :: (as ++ '\"' :: (colon ++ rest))) := by
      have hrest := h.append rest
      simpa only [List.cons_append, List.append_assoc, List.nil_append] using hrest
    have hmember : readValue (n + 1) (ts ++ rest) = (v.tree, some (es ++ rest)) := by
      rw [readValue_of_spaced (hr.append rest), List.append_assoc]
      exact hvalue (n + 1) (es ++ rest) hv (hcloses rest) (by omega)
    rw [readMembers_of_separated hsep, readMember_eq has (hcolon.append rest) hmember,
      hmembers (n + 1) rest hms (by omega), memberTrees]

end

/-- A text of a value is not blank. -/
theorem isBlankText_of_hasText {v : Json} {s : String} (h : HasText v s) :
    Text.isBlankText s.toList = false := by
  obtain ⟨cs, sp, -, ⟨before, -, hs⟩, hv⟩ := h
  obtain ⟨c, r, rfl, hc⟩ := exists_cons_of_valueText hv
  have hmem : c ∈ s.toList := by
    rw [hs]
    exact List.mem_append_right _ List.mem_cons_self
  refine Bool.eq_false_iff.mpr fun hblank => Bool.eq_false_iff.mp hc.1 ?_
  exact List.all_eq_true.mp hblank c hmem

/-- **A text of a value is read as the tree of the value,** up to the white space behind it. -/
theorem exists_read_of_hasText {v : Json} {s : String} (h : HasText v s) :
    ∃ sp, isSpaceText sp = true ∧ Node.read s.toList = (v.tree, some sp) := by
  obtain ⟨cs, sp, hsp, hspaced, hv⟩ := h
  have hcloses : Closes sp := by
    rw [← List.append_nil sp]
    exact closes_of_spaced ⟨sp, hsp, rfl⟩ closes_nil
  have hlength := hspaced.length_le
  rw [List.length_append] at hlength
  refine ⟨sp, hsp, ?_⟩
  rw [Node.read, readValue_of_spaced hspaced]
  exact readValue_append v cs _ sp hv hcloses (by omega)

/-- **What a decoder makes of a text it makes of the tree.** -/
theorem decode?_of_hasText {α : Type} (d : Decoder α) {v : Json} {s : String} (h : HasText v s) :
    decode? d s.toList = d v.tree := by
  obtain ⟨sp, hsp, hread⟩ := exists_read_of_hasText h
  rw [decode?, hread]
  cases h : d v.tree with
  | ok a => simp [h, hsp]
  | error e => simp [h]

/-- So it is with the text without white space. -/
theorem decode?_compactChars {α : Type} (d : Decoder α) (v : Json) :
    decode? d v.compactChars = d v.tree := by
  rw [← decode?_of_hasText d (hasText_compact v), compact, String.toList_ofList]

/-! ## Bytes -/

/-- What the patch for bytes that are no text is in a string. -/
def patchUnits : List StringUnit := [.char '?', .code 0xD800, .char '?']

/-- A string with a patch can be scanned to its end. -/
theorem scanUnits?_patch (cs : List Char) :
    scanUnits? (patch ++ cs) = (scanUnits? cs).map (Prod.map (patchUnits ++ ·) id) := by
  have hcode : hexUnit? 'd' '8' '0' '0' = some 0xD800 := by decide
  have hpatch : patch ++ cs = '?' :: '\\' :: 'u' :: 'd' :: '8' :: '0' :: '0' :: '?' :: cs := rfl
  rw [hpatch]
  cases hcs : scanUnits? cs with
  | none => simp [scanUnits?, hcode, hcs]
  | some found => simp [scanUnits?, hcode, hcs, Prod.map, patchUnits]

/-- **But it has no text,** whatever stands around the patch. -/
theorem textOfUnits?_patch (us vs : List StringUnit) :
    textOfUnits? (us ++ (patchUnits ++ vs)) = none := by
  -- a number in front of the patch has a character behind it, so no patch is half of a pair
  have hplain {us : List StringUnit} (h : ∀ m us', us = .code m :: us' → False) :
      ∀ m us', us ++ (patchUnits ++ vs) = .code m :: us' → False := by
    cases us with
    | nil => simp [patchUnits]
    | cons u us =>
      rintro m us' heq
      exact h m us (congrArg (· :: us) (List.cons.inj heq).1)
  induction us using textOfUnits?.induct with
  | case1 => simp [patchUnits, textOfUnits?]
  | case2 c us ih => simp [textOfUnits?, ih]
  | case3 n m us hn hm ih => simp [textOfUnits?, hn, hm, ih]
  | case4 n m us hn hm => simp [textOfUnits?, hn, hm]
  | case5 n m us hn hn' => simp only [List.cons_append, textOfUnits?, if_neg hn, if_pos hn']
  | case6 n m us hn hn' ih =>
    rw [List.cons_append] at ih
    simp only [List.cons_append, textOfUnits?, if_neg hn, if_neg hn', ih, Option.map_none]
  | case7 n us hus hn =>
    rw [List.cons_append, textOfUnits?, if_pos hn]
    exact hplain hus
  | case8 n us hus hn ih =>
    rw [List.cons_append, textOfUnits?, if_neg hn, ih, Option.map_none]
    exact hplain hus

/-- A text is decoded from its bytes. -/
theorem decodeBytes?_encode {α : Type} (d : Decoder α) (cs : List Char) :
    decodeBytes? d (Text.encode cs) = decode? d cs := by
  rw [decodeBytes?, charsOf, Text.decodeWith_encode]

/-- Nobody looks at a string under a name that the record does not have. -/
example : decodeBytes? (Record.decode ⟨none, ["a"], fun k => if k = "a" then
      some fun n d => fill text d id n else none, require⟩)
    (Text.encode "\x7b\"b\":\"".toList ++ [255] ++ Text.encode "\",\"a\":\"x\"\x7d".toList) =
      .ok "x" := by decide +kernel

end MarkdownIndex.Json
