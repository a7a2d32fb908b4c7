import Mathlib.Data.List.Basic
import MarkdownIndex.Glob.Matching
import MarkdownIndex.Proofs.Files.Text
import MarkdownIndex.Scan

/-!
# All that lies beneath a directory: what the pattern of it has

A pattern such as `**/target/**` is matched against the bytes of a path. It has a path if one of the
names on the way is this one, and not if a name merely contains it.

* `nil_mem_rests_cons`, `nil_mem_rests_literals` — a pattern has a text if nothing may be left of
  it, token by token.
* `beneath` — the pattern of all that lies beneath a directory; `nil_mem_rests_beneath` — the bytes
  that it has.
* `Within`, `within_intercalate` — a piece between slashes, found among the pieces of a text.
* `has_beneath` — **the pattern has a path if a directory on its way has the name.**
-/

namespace MarkdownIndex.Glob

open Text

variable {s r x : Bytes} {ts : List Token}

/-! ## Nothing is left -/

theorem nil_mem_distinct {ss : List Bytes} : [] ∈ distinct ss ↔ [] ∈ ss := by
  induction ss with
  | nil => rfl
  | cons s ss ih =>
    rw [List.mem_cons, ← ih, distinct, List.foldr_cons]
    rw [← distinct]
    split
    · -- a text of the same length has been kept, and there is only one without bytes
      rename_i h
      refine ⟨Or.inr, fun hnil => hnil.elim (fun hs => ?_) id⟩
      obtain ⟨t, ht, hlength⟩ := List.any_eq_true.mp h
      rw [← hs, beq_iff_eq, List.length_nil, List.length_eq_zero_iff] at hlength
      exact hlength ▸ ht
    · exact List.mem_cons

/-- Nothing is left after a token and a pattern if the pattern leaves nothing of something that the
token leaves. -/
theorem nil_mem_rests_cons {t : Token} :
    [] ∈ rests (t :: ts) s ↔ ∃ r ∈ t.rests s, [] ∈ rests ts r := by
  rw [rests, nil_mem_distinct, List.mem_flatMap]

theorem dropPrefix?_eq_some_iff {p : Bytes} : dropPrefix? p s = some r ↔ s = p ++ r := by
  induction p generalizing s with
  | nil =>
    rw [dropPrefix?, List.nil_append]
    exact Option.some_inj
  | cons b p ih =>
    cases s with
    | nil => exact iff_of_false (fun h => nomatch h) fun h => nomatch h
    | cons c s =>
      rw [dropPrefix?]
      split
      · rename_i h
        rw [ih, h, List.cons_append, List.cons_inj_right]
      · rename_i h
        refine iff_of_false (fun h => nomatch h) fun hs => h ?_
        exact (List.cons.inj hs).1.symm

/-- Characters that stand for themselves take their bytes from the front. -/
theorem nil_mem_rests_literals (cs : List Char) :
    [] ∈ rests (cs.map .literal ++ ts) s ↔ ∃ r, s = encode cs ++ r ∧ [] ∈ rests ts r := by
  induction cs generalizing s with
  | nil => simp [encode]
  | cons c cs ih =>
    rw [List.map_cons, List.cons_append, nil_mem_rests_cons]
    simp only [Token.rests, Option.mem_toList, dropPrefix?_eq_some_iff, ih, encode_cons,
      List.append_assoc]
    constructor
    · rintro ⟨_, rfl, r, rfl, hr⟩
      exact ⟨r, rfl, hr⟩
    · rintro ⟨r, rfl, hr⟩
      exact ⟨_, rfl, r, rfl, hr⟩

theorem mem_afterSlashes : r ∈ afterSlashes s ↔ ∃ u, s = u ++ slash :: r := by
  induction s with
  | nil => simp [afterSlashes]
  | cons b s ih =>
    have hcons : (∃ u, b :: s = u ++ slash :: r) ↔
        (b = slash ∧ s = r) ∨ ∃ u, s = u ++ slash :: r := by
      constructor
      · rintro ⟨_ | ⟨a, u⟩, h⟩
        · exact Or.inl (List.cons.inj h)
        · exact Or.inr ⟨u, (List.cons.inj h).2⟩
      · rintro (⟨rfl, rfl⟩ | ⟨u, rfl⟩)
        · exact ⟨[], rfl⟩
        · exact ⟨b :: u, rfl⟩
    rw [hcons, ← ih, afterSlashes]
    split
    · rename_i h
      rw [List.mem_cons, eq_comm, and_iff_right h]
    · rename_i h
      exact ⟨Or.inr, fun h' => h'.elim (fun hb => absurd hb.1 h) id⟩

theorem nil_mem_endings (s : Bytes) : [] ∈ endings s := by
  induction s with
  | nil => exact List.mem_cons_self
  | cons b s ih => exact List.mem_cons_of_mem _ ih

theorem nil_mem_rests_everythingBelow :
    [] ∈ rests [.everythingBelow] s ↔ ∃ r, s = slash :: r := by
  rw [nil_mem_rests_cons]
  cases s with
  | nil => simp [Token.rests]
  | cons b s =>
    simp only [Token.rests, rests, List.mem_singleton, List.cons.injEq]
    split
    · rename_i h
      exact ⟨fun _ => ⟨s, h, rfl⟩, fun _ => ⟨[], nil_mem_endings s, rfl⟩⟩
    · rename_i h
      exact ⟨fun ⟨_, hr, _⟩ => absurd hr List.not_mem_nil, fun ⟨_, hb, _⟩ => absurd hb h⟩

/-! ## Beneath a directory -/

/-- A piece of a text that a slash follows, at the front or behind another slash. -/
def Within (x s : Bytes) : Prop :=
  (∃ r, s = x ++ slash :: r) ∨ ∃ u r, s = u ++ slash :: (x ++ slash :: r)

/-- The pattern of all that lies beneath a directory of a name. -/
def beneath (name : String) : List Token :=
  .leadingDirectories :: (name.toList.map .literal ++ [.everythingBelow])

theorem nil_mem_rests_beneath {name : String} :
    [] ∈ rests (beneath name) s ↔ Within (encode name.toList) s := by
  rw [beneath, nil_mem_rests_cons]
  simp only [Token.rests, List.mem_cons, mem_afterSlashes, nil_mem_rests_literals,
    nil_mem_rests_everythingBelow, Within]
  constructor
  · rintro ⟨r, rfl | ⟨u, rfl⟩, _, rfl, r', rfl⟩
    · exact Or.inl ⟨r', rfl⟩
    · exact Or.inr ⟨u, r', rfl⟩
  · rintro (⟨r, rfl⟩ | ⟨u, r, rfl⟩)
    · exact ⟨_, Or.inl rfl, _, rfl, r, rfl⟩
    · exact ⟨_, Or.inr ⟨u, rfl⟩, _, rfl, r, rfl⟩

/-! ## Pieces between slashes -/

theorem not_within_of_solid (h : slash ∉ s) : ¬ Within x s := by
  rintro (⟨r, rfl⟩ | ⟨u, r, rfl⟩)
  · exact h (List.mem_append_right _ List.mem_cons_self)
  · exact h (List.mem_append_right _ List.mem_cons_self)

/-- What stands before the first slash of a text is determined by it. -/
theorem eq_of_append_slash {b : Bytes} (hb : slash ∉ b) (hx : slash ∉ x)
    (h : b ++ slash :: s = x ++ slash :: r) : b = x := by
  rcases List.append_eq_append_iff.mp h with ⟨_ | ⟨a, as⟩, rfl, hrest⟩ | ⟨_ | ⟨a, as⟩, rfl, hrest⟩
  · exact (List.append_nil b).symm
  · rw [← (List.cons.inj hrest).1] at hx
    exact absurd (List.mem_append_right b List.mem_cons_self) hx
  · exact List.append_nil x
  · rw [← (List.cons.inj hrest).1] at hb
    exact absurd (List.mem_append_right x List.mem_cons_self) hb

/-- A piece is the first one or one of those behind it. -/
theorem within_cons {b : Bytes} (hx : slash ∉ x) (hb : slash ∉ b) :
    Within x (b ++ slash :: s) ↔ b = x ∨ Within x s := by
  constructor
  · rintro (⟨r, h⟩ | ⟨u, r, h⟩)
    · exact Or.inl (eq_of_append_slash hb hx h)
    · refine Or.inr ?_
      rcases List.append_eq_append_iff.mp h with ⟨_ | ⟨a, u'⟩, rfl, hrest⟩ |
        ⟨_ | ⟨a, b'⟩, rfl, hrest⟩
      · exact Or.inl ⟨r, (List.cons.inj hrest).2⟩
      · exact Or.inr ⟨u', r, (List.cons.inj hrest).2⟩
      · exact Or.inl ⟨r, (List.cons.inj hrest).2.symm⟩
      · -- the piece would hold a slash
        refine absurd ?_ hb
        rw [(List.cons.inj hrest).1]
        exact List.mem_append_right u List.mem_cons_self
  · rintro (rfl | ⟨r, rfl⟩ | ⟨u, r, rfl⟩)
    · exact Or.inl ⟨s, rfl⟩
    · exact Or.inr ⟨b, r, rfl⟩
    · refine Or.inr ⟨b ++ slash :: u, r, ?_⟩
      rw [List.append_assoc, List.cons_append]

/-- **A piece of a text that has been put together with slashes** is one of those that it has been
put together of, and not the last one. -/
theorem within_intercalate {bs : List Bytes} (hx : slash ∉ x) (hbs : ∀ b ∈ bs, slash ∉ b) :
    Within x ([slash].intercalate bs) ↔ x ∈ bs.dropLast := by
  induction bs with
  | nil => exact iff_of_false (not_within_of_solid List.not_mem_nil) List.not_mem_nil
  | cons b bs ih =>
    obtain ⟨hb, hrest⟩ := List.forall_mem_cons.mp hbs
    cases bs with
    | nil =>
      rw [List.intercalate_singleton]
      exact iff_of_false (not_within_of_solid hb) List.not_mem_nil
    | cons b' bs =>
      rw [List.intercalate_cons_cons, List.append_assoc, List.singleton_append, within_cons hx hb,
        ih hrest, List.dropLast_cons_cons, List.mem_cons, eq_comm]

/-! ## Paths -/

/-- **The pattern has a path if a directory on its way has the name.** The last name is that of the
file, and a name that merely contains the other does not count. -/
theorem has_beneath {name : String} {names : List FileName} (hname : '/' ∉ name.toList)
    (hplain : '\uFFFD' ∉ name.toList) (hnames : ∀ n ∈ names, IsName n) :
    (Glob.mk (beneath name)).has (Scanner.relative names) = true ↔
      Path.ofText name ∈ names.dropLast := by
  have hhas : (Glob.mk (beneath name)).has (Scanner.relative names) = true ↔
      [] ∈ rests (beneath name) (encode (Scanner.relative names).toList) := by
    rw [Glob.has, beneath]
    split
    · rename_i heq
      simp at heq
    · simp
  have hbytes : encode (Scanner.relative names).toList =
      [slash].intercalate (names.map Path.shown) := by
    rw [Scanner.relative, ← Path.ofText, Path.ofText_text, Path.shown_intercalate]
    rfl
  have hsolid {s : Bytes} (h : slash ∉ s) : slash ∉ Path.shown s :=
    mt (Path.mem_shown_iff (by decide)).mp h
  have hbyte : slash ∉ Path.ofText name := by
    intro h
    obtain ⟨c, hc, hc'⟩ := List.mem_flatMap.mp h
    obtain rfl : c = '/' := Char.toNat_inj.mp (toNat_eq_of_mem_encodeChar (by decide) hc')
    exact hname hc
  rw [hhas, hbytes, nil_mem_rests_beneath, ← Path.ofText, within_intercalate hbyte,
    ← List.map_dropLast, List.mem_map]
  · simp only [Path.ofText, Path.shown_eq_encode_iff hplain, exists_eq_right]
  · intro b hb
    obtain ⟨n, hn, rfl⟩ := List.mem_map.mp hb
    exact hsolid (hnames n hn).no_slash

end MarkdownIndex.Glob
