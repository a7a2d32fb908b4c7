import MarkdownIndex.Proofs.Files.Name
import MarkdownIndex.Proofs.Text.Utf8

/-!
# The text of a path: what it keeps

A store knows a file by the text of its path. Paths that are texts are told apart by it, and others
need not be; but what is ASCII stays in its place, and so the text of a path has the same slashes
and dots.

* `shown` — the bytes of the text of some bytes; `shown_append_cons`, `shown_intercalate` — the text
  is cut at ASCII bytes as the bytes are.
* `text_ofText`, `eq_ofText_of_text_eq` — a text is the text of one path only, unless it has
  characters that stand for others.
* `Apart` — the text of a path tells it from some others.
* `fileStem_ofText_text` — **a path and its text give a file the same name.**
-/

namespace MarkdownIndex.Path

open Text

variable {p q : Path} {s : FileName} {b : UInt8} {t : String}

/-! ## The bytes of a text -/

/-- The bytes of the text of some bytes. -/
def shown (s : List UInt8) : List UInt8 := encode (decodeLossy s)

theorem shown_encode (cs : List Char) : shown (encode cs) = encode cs := by
  rw [shown, decodeLossy_encode]

/-- Only the bytes of a text show as that text, unless it has characters that stand for others. -/
theorem shown_eq_encode_iff {cs : List Char} (hcs : '\uFFFD' ∉ cs) :
    shown s = encode cs ↔ s = encode cs := by
  constructor
  · intro h
    have hchars : decodeLossy s = cs := encode_injective h
    rw [← hchars, encode_decodeLossy (hchars ▸ hcs)]
  · rintro rfl
    exact shown_encode cs

/-- At an ASCII byte a text is cut as its bytes are. -/
theorem shown_append_cons (hb : b.toNat < 128) (as bs : List UInt8) :
    shown (as ++ b :: bs) = shown as ++ b :: shown bs := by
  have hcode : (Char.ofNat b.toNat).toNat = b.toNat :=
    toNat_ofNat_of_isValidChar (Or.inl (by omega))
  have hbyte : encodeChar (Char.ofNat b.toNat) = [b] := by
    simp only [encodeChar, hcode, if_pos hb, toUInt8_of_toNat_eq (Eq.refl b.toNat)]
  rw [shown, decodeLossy_append_cons as hb, encode_append, encode_cons, hbyte]
  rfl

theorem mem_shown_iff (hb : b.toNat < 128) : b ∈ shown s ↔ b ∈ s := by
  constructor
  · intro h
    obtain ⟨c, hc, hbyte⟩ := List.mem_flatMap.mp h
    have hcode := toNat_eq_of_mem_encodeChar hb hbyte
    have hmem := toUInt8_mem_of_mem_decodeLossy (by omega) hc
    rwa [toUInt8_of_toNat_eq hcode] at hmem
  · intro h
    obtain ⟨as, bs, rfl⟩ := List.append_of_mem h
    rw [shown_append_cons hb]
    exact List.mem_append_right _ List.mem_cons_self

/-- What stands between slashes is shown piece by piece. -/
theorem shown_intercalate (ss : List FileName) :
    shown ([slash].intercalate ss) = [slash].intercalate (ss.map shown) := by
  induction ss with
  | nil => rfl
  | cons s ss ih =>
    cases ss with
    | nil => simp only [List.intercalate_singleton, List.map_cons, List.map_nil]
    | cons s' ss =>
      rw [List.intercalate_cons_cons, List.append_assoc, List.singleton_append,
        shown_append_cons (by decide), ih, List.map_cons, List.map_cons, List.map_cons,
        List.intercalate_cons_cons, List.append_assoc, List.singleton_append]

/-! ## Texts and paths -/

theorem text_ofText (t : String) : text (ofText t) = t := by
  rw [text, ofText, decodeLossy_encode, String.ofList_toList]

theorem ofText_text (p : Path) : ofText (text p) = shown p := by
  rw [ofText, text, String.toList_ofList, shown]

/-- A text is the text of one path only, unless it has characters that stand for others. -/
theorem eq_ofText_of_text_eq (ht : '\uFFFD' ∉ t.toList) (h : text p = t) : p = ofText t := by
  rw [ofText, ← shown_eq_encode_iff ht, ← ofText_text, h, ofText]

/-- No other of some paths has the text of a path. -/
def Apart (ps : List Path) (p : Path) : Prop := ∀ q ∈ ps, text q = text p → q = p

/-- Paths that are texts are told apart by them. -/
theorem apart_of_texts {ps : List Path} (hps : ∀ q ∈ ps, ∃ s, q = ofText s) (t : String) :
    Apart ps (ofText t) := by
  intro q hq h
  obtain ⟨s, rfl⟩ := hps q hq
  rw [text_ofText, text_ofText] at h
  rw [h]

theorem Apart.of_subset {ps qs : List Path} (h : Apart qs p) (hsub : ps ⊆ qs) : Apart ps p :=
  fun q hq => h q (hsub hq)

/-! ## The name of a file -/

/-- The segments of a path are shown one by one. -/
theorem segments_shown (p : Path) : segments (shown p) = (segments p).map shown := by
  induction hlength : p.length using Nat.strongRecOn generalizing p with
  | ind l ih =>
    by_cases hp : slash ∈ p
    · obtain ⟨as, bs, rfl⟩ := List.append_of_mem hp
      simp only [List.length_append, List.length_cons] at hlength
      rw [shown_append_cons (by decide), segments_append_cons, segments_append_cons,
        List.map_append, ih as.length (by omega) as rfl, ih bs.length (by omega) bs rfl]
    · rw [segments_of_not_mem hp, segments_of_not_mem (mt (mem_shown_iff (by decide)).mp hp)]
      rfl

/-- A component with its name as it is shown. -/
def Component.shown : Component → Component
  | .name s => .name (Path.shown s)
  | c => c

theorem shown_eq_nil_iff : shown s = [] ↔ s = [] := shown_eq_encode_iff List.not_mem_nil

theorem shown_eq_here_iff : shown s = here ↔ s = here := by
  have hdot : '\uFFFD' ∉ ['.'] := by decide
  exact shown_eq_encode_iff hdot

theorem shown_eq_parent_iff : shown s = parent ↔ s = parent := by
  have hdots : '\uFFFD' ∉ ['.', '.'] := by decide
  exact shown_eq_encode_iff hdots

theorem component?_shown (s : FileName) :
    component? (shown s) = (component? s).map Component.shown := by
  simp only [component?, shown_eq_nil_iff, shown_eq_here_iff, shown_eq_parent_iff]
  split_ifs <;> rfl

theorem lead_shown (s : FileName) : lead (shown s) = (lead s).map Component.shown := by
  simp only [lead, shown_eq_nil_iff, shown_eq_here_iff, component?_shown]
  split_ifs
  · rfl
  · rfl
  · cases component? s <;> rfl

/-- So are its components. -/
theorem components_shown (p : Path) :
    components (shown p) = (components p).map Component.shown := by
  by_cases hp : p = []
  · rw [hp]
    rfl
  · obtain ⟨s, ss, hss⟩ := List.exists_cons_of_ne_nil (segments_ne_nil p)
    have hshown : segments (shown p) = shown s :: ss.map shown := by
      rw [segments_shown, hss, List.map_cons]
    rw [components_of_segments hp hss,
      components_of_segments (mt shown_eq_nil_iff.mp hp) hshown, lead_shown, List.map_append,
      List.filterMap_map, List.map_filterMap]
    exact congrArg (_ ++ ss.filterMap ·) (funext component?_shown)

theorem fileName?_shown (p : Path) : fileName? (shown p) = (fileName? p).map shown := by
  rw [fileName?, fileName?, components_shown, List.getLast?_map]
  rcases (components p).getLast? with _ | _ | _ | _ | s <;> rfl

/-- Without its extension a name is what stands before the last dot, if something does. -/
theorem stemOfName_append_cons (as : List UInt8) {bs : List UInt8} (h : dot ∉ bs) :
    stemOfName (as ++ dot :: bs) = if as = [] then dot :: bs else as := by
  have hskip : bs.reverse.dropWhile (· != dot) = [] := by
    rw [List.dropWhile_eq_nil_iff]
    intro b hb
    rw [bne_iff_ne]
    rintro rfl
    exact h (List.mem_reverse.mp hb)
  rw [stemOfName, List.reverse_append, List.reverse_cons, List.append_assoc,
    List.dropWhile_append, hskip]
  cases as using List.reverseRecOn with
  | nil => rfl
  | append_singleton as a => simp

theorem stemOfName_of_not_mem (h : dot ∉ s) : stemOfName s = s := by
  have hskip : s.reverse.dropWhile (· != dot) = [] := by
    rw [List.dropWhile_eq_nil_iff]
    intro b hb
    rw [bne_iff_ne]
    rintro rfl
    exact h (List.mem_reverse.mp hb)
  rw [stemOfName, hskip]

/-- The dots of a name stay where they are. -/
theorem stemOfName_shown (s : FileName) : stemOfName (shown s) = shown (stemOfName s) := by
  by_cases hs : dot ∈ s
  · obtain ⟨bs, as, hsplit, hlast⟩ := List.eq_append_cons_of_mem (List.mem_reverse.mpr hs)
    have hs' : s = as.reverse ++ dot :: bs.reverse := by
      rw [← List.reverse_reverse s, hsplit, List.reverse_append, List.reverse_cons,
        List.append_assoc, List.singleton_append]
    have hbs : dot ∉ bs.reverse := mt List.mem_reverse.mp hlast
    generalize as.reverse = as at hs'
    generalize bs.reverse = bs at hs' hbs
    subst hs'
    rw [shown_append_cons (by decide), stemOfName_append_cons as hbs,
      stemOfName_append_cons _ (mt (mem_shown_iff (by decide)).mp hbs)]
    simp only [shown_eq_nil_iff]
    split_ifs
    · exact (shown_append_cons (by decide) [] bs).symm
    · rfl
  · rw [stemOfName_of_not_mem hs, stemOfName_of_not_mem (mt (mem_shown_iff (by decide)).mp hs)]

/-- **A path and its text give a file the same name.** -/
theorem fileStem_ofText_text (p : Path) : fileStem (ofText (text p)) = fileStem p := by
  have htext (s : List UInt8) : text (shown s) = text s := by rw [← ofText_text, text_ofText]
  rw [ofText_text, fileStem, fileStem, fileName?_shown, Option.map_map]
  cases fileName? p with
  | none => rfl
  | some s =>
    rw [Option.map_some, Option.map_some, Option.getD_some, Option.getD_some,
      Function.comp_apply, stemOfName_shown, htext]

end MarkdownIndex.Path
