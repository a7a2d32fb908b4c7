import Mathlib.Data.List.Basic
import MarkdownIndex.Json.Node

/-!
# Texts of a JSON value

A value has many texts: white space may stand between the tokens, and a character of a string may be
written in several ways. The text without white space, in which a character is escaped only if it
has to be, is one of them.

* `CharText`, `StringText` — the ways to write a character and a string.
* `Spaced`, `Separated` — white space, with a comma between items.
* `ValueText`, `ItemsText`, `MembersText` — the texts of a value, of items and of members.
* `HasText` — the texts that hold one value and white space around it.
* `valueText_compactChars` — **the text without white space is one of them.**
-/

namespace MarkdownIndex.Json

variable {cs ds rest r : List Char} {first : Bool}

/-! ## Strings -/

/-- A way to write a character inside a string: as it is, by a letter, by its number, or, beyond the
numbers of sixteen bits, by those of two surrogates. -/
inductive CharText (c : Char) : List Char → Prop where
  /-- as it is -/
  | plain (hc : 32 ≤ c.toNat) (hquote : c ≠ '\"') (hslash : c ≠ '\\') : CharText c [c]
  /-- by a letter -/
  | named {k : Char} (h : namedEscape? k = some c) : CharText c ['\\', k]
  /-- by its number -/
  | code {x y z w : Char} (h : hexUnit? x y z w = some c.toNat) : CharText c ['\\', 'u', x, y, z, w]
  /-- by two surrogates -/
  | pair {x y z w x' y' z' w' : Char} (hc : 0x10000 ≤ c.toNat)
      (h : hexUnit? x y z w = some (0xD800 + (c.toNat - 0x10000) / 0x400))
      (h' : hexUnit? x' y' z' w' = some (0xDC00 + (c.toNat - 0x10000) % 0x400)) :
      CharText c ['\\', 'u', x, y, z, w, '\\', 'u', x', y', z', w']

/-- A way to write the characters of a string. -/
inductive CharsText : List Char → List Char → Prop where
  /-- none -/
  | nil : CharsText [] []
  /-- one after the other -/
  | cons {c : Char} {s cs ds : List Char} (hc : CharText c cs) (hs : CharsText s ds) :
      CharsText (c :: s) (cs ++ ds)

/-- A way to write a string, with its quotes. -/
def StringText (s : String) (cs : List Char) : Prop :=
  ∃ ds, CharsText s.toList ds ∧ cs = '\"' :: (ds ++ ['\"'])

/-! ## White space -/

/-- A text is another one with white space before it. -/
def Spaced (cs ds : List Char) : Prop := ∃ sp, isSpaceText sp = true ∧ cs = sp ++ ds

/-- What stands before an item: white space, and a comma with white space around it unless the item
is the first one. -/
def Separated (first : Bool) (cs ds : List Char) : Prop :=
  if first then Spaced cs ds else ∃ r, Spaced cs (',' :: r) ∧ Spaced r ds

theorem spaced_rfl (cs : List Char) : Spaced cs cs := ⟨[], rfl, rfl⟩

theorem Spaced.append (h : Spaced cs ds) (rest : List Char) : Spaced (cs ++ rest) (ds ++ rest) := by
  obtain ⟨sp, hsp, rfl⟩ := h
  exact ⟨sp, hsp, List.append_assoc sp ds rest⟩

theorem Spaced.length_le (h : Spaced cs ds) : ds.length ≤ cs.length := by
  obtain ⟨sp, -, rfl⟩ := h
  rw [List.length_append]
  exact Nat.le_add_left _ _

theorem Separated.append (h : Separated first cs ds) (rest : List Char) :
    Separated first (cs ++ rest) (ds ++ rest) := by
  cases first with
  | true => exact Spaced.append h rest
  | false =>
    obtain ⟨r, hcomma, hr⟩ := h
    exact ⟨r ++ rest, hcomma.append rest, hr.append rest⟩

theorem Separated.length_le (h : Separated first cs ds) : ds.length ≤ cs.length := by
  cases first with
  | true => exact Spaced.length_le h
  | false =>
    obtain ⟨r, hcomma, hr⟩ := h
    exact Nat.le_trans hr.length_le (Nat.le_trans (Nat.le_succ _) hcomma.length_le)

/-! ## Values -/

mutual

/-- The texts of a value, without white space around them. -/
inductive ValueText : Json → List Char → Prop where
  /-- `null` -/
  | null : ValueText .null "null".toList
  /-- `true` or `false` -/
  | bool (b : Bool) : ValueText (.bool b) (if b then "true" else "false").toList
  /-- a number, in its own notation -/
  | number (n : Number) : ValueText (.number n) n.text.toList
  /-- a string -/
  | string {s : String} {cs : List Char} (h : StringText s cs) : ValueText (.string s) cs
  /-- an array -/
  | array {items : List Json} {cs : List Char} (h : ItemsText true items cs) :
      ValueText (.array items) ('[' :: cs)
  /-- an object -/
  | object {members : List (String × Json)} {cs : List Char} (h : MembersText true members cs) :
      ValueText (.object members) ('\x7b' :: cs)

/-- The texts of items, from the first one on or from behind one, with the closing bracket. -/
inductive ItemsText : Bool → List Json → List Char → Prop where
  /-- no further items -/
  | close {first : Bool} {cs : List Char} (h : Spaced cs [']']) : ItemsText first [] cs
  /-- an item, and those after it -/
  | item {first : Bool} {v : Json} {vs : List Json} {cs ds es : List Char} (hv : ValueText v ds)
      (hvs : ItemsText false vs es) (h : Separated first cs (ds ++ es)) :
      ItemsText first (v :: vs) cs

/-- The texts of members, from the first one on or from behind one, with the closing brace. -/
inductive MembersText : Bool → List (String × Json) → List Char → Prop where
  /-- no further members -/
  | close {first : Bool} {cs : List Char} (h : Spaced cs ['\x7d']) : MembersText first [] cs
  /-- a member, and those after it -/
  | member {first : Bool} {k : String} {v : Json} {ms : List (String × Json)}
      {cs ks colon r ds es : List Char} (hk : StringText k ks) (hv : ValueText v ds)
      (hms : MembersText false ms es) (hr : Spaced r (ds ++ es)) (hcolon : Spaced colon (':' :: r))
      (h : Separated first cs (ks ++ colon)) : MembersText first ((k, v) :: ms) cs

end

/-- A text holds a value, and white space around it. -/
def HasText (v : Json) (s : String) : Prop :=
  ∃ cs sp, isSpaceText sp = true ∧ Spaced s.toList (cs ++ sp) ∧ ValueText v cs

/-! ## Texts without white space -/

theorem hexValue?_hexDigit : ∀ n < 16, Text.hexValue? (Text.hexDigit n) = some n := by
  decide

/-- A character that is escaped only if it has to be is written in one of the ways. -/
theorem charText_escape (c : Char) : CharText c (escape c) := by
  unfold escape
  split_ifs with h₁ h₂ h₃ h₄ h₅ h₆ h₇ h₈
  · exact .named (by rw [h₁]; rfl)
  · exact .named (by rw [h₂]; rfl)
  · exact .named (by rw [h₃]; rfl)
  · exact .named (h₄ ▸ rfl)
  · exact .named (h₅ ▸ rfl)
  · exact .named (by rw [← Char.ofNat_toNat c, h₆]; rfl)
  · exact .named (by rw [← Char.ofNat_toNat c, h₇]; rfl)
  · refine .code ?_
    have hzero : Text.hexValue? '0' = some 0 := rfl
    simp only [hexUnit?, hzero, hexValue?_hexDigit (c.toNat / 16) (by omega),
      hexValue?_hexDigit (c.toNat % 16) (by omega), Option.bind_eq_bind, Option.bind_some,
      Option.pure_def, Option.some_inj]
    omega
  · exact .plain (Nat.le_of_not_lt h₈) h₁ h₂

theorem charsText_escape (cs : List Char) : CharsText cs (cs.flatMap escape) := by
  induction cs with
  | nil => exact .nil
  | cons c cs ih => exact .cons (charText_escape c) ih

theorem stringText_quote (s : String) : StringText s (quote s) :=
  ⟨s.toList.flatMap escape, charsText_escape s.toList, rfl⟩

mutual

/-- **The text of a value without white space is one of its texts.** -/
theorem valueText_compactChars : ∀ v : Json, ValueText v v.compactChars
  | .null => .null
  | .bool b => .bool b
  | .number n => .number n
  | .string s => .string (stringText_quote s)
  | .array items => .array (itemsText_compactItems items)
  | .object members => .object (membersText_compactMembers members)

theorem itemsText_compactItems : ∀ items : List Json, ItemsText true items (compactItems items)
  | [] => .close (spaced_rfl _)
  | [v] => .item (valueText_compactChars v) (.close (spaced_rfl _)) (spaced_rfl _)
  | v :: w :: vs => by
    have hrest := itemsText_compactItems (w :: vs)
    cases hrest with
    | item hw hvs h =>
      exact .item (valueText_compactChars v) (.item hw hvs ⟨_, spaced_rfl _, h⟩) (spaced_rfl _)

theorem membersText_compactMembers : ∀ members : List (String × Json),
    MembersText true members (compactMembers members)
  | [] => .close (spaced_rfl _)
  | [(k, v)] => by
    have hsep : Separated true (compactMembers [(k, v)])
        (quote k ++ ':' :: (v.compactChars ++ ['\x7d'])) :=
      ⟨[], rfl, List.append_assoc _ _ _⟩
    exact .member (stringText_quote k) (valueText_compactChars v) (.close (spaced_rfl _))
      (spaced_rfl _) (spaced_rfl _) hsep
  | (k, v) :: m :: ms => by
    have hrest := membersText_compactMembers (m :: ms)
    have hsep : Separated true (compactMembers ((k, v) :: m :: ms))
        (quote k ++ ':' :: (v.compactChars ++ ',' :: compactMembers (m :: ms))) :=
      ⟨[], rfl, List.append_assoc _ _ _⟩
    cases hrest with
    | member hk hv hms hr hcolon h =>
      exact .member (stringText_quote k) (valueText_compactChars v)
        (.member hk hv hms hr hcolon ⟨_, spaced_rfl _, h⟩) (spaced_rfl _) (spaced_rfl _) hsep

end

theorem hasText_compact (v : Json) : HasText v v.compact :=
  ⟨v.compactChars, [], rfl, ⟨[], rfl, by rw [compact, String.toList_ofList, List.append_nil]; rfl⟩,
    valueText_compactChars v⟩

end MarkdownIndex.Json
