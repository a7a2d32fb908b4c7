import Mathlib.Data.List.Basic
import MarkdownIndex.Proofs.Http.Percent
import MarkdownIndex.Proofs.Text.Token

/-!
# Addresses: what a longer text asks for below a shorter one

A client puts paths behind the text of an address and hopes for an address below it. Scheme, user,
host and port are indeed those of the shorter text, whatever stands in the path. The path lies below
the path of the shorter address unless dot segments lead out of it, and the segments are those
between the slashes, cut off at the first question mark or number sign.

* `finish` — an address with what follows its host.
* `parse?_append` — **the host of a longer text is that of the shorter one.**
* `exists_below` — the path of a longer text, if the shorter one has neither query nor fragment.
* `isName_of_ne` — a segment that reads as it is written stands for itself, unless it is dots.
* `resolveSegments_eq_append` — where resolved segments come from.
* `joinPath_injective` — segments without slashes are told by the path.
-/

namespace MarkdownIndex.Http.Url

open Text

variable {u base : Url} {b cs x y r rest : List Char} {secure : Bool}

/-! ## The parts of an address -/

theorem drop_length_takeWhile {α : Type} (p : α → Bool) (as : List α) :
    as.drop (as.takeWhile p).length = as.dropWhile p := by
  induction as with
  | nil => rfl
  | cons a as ih =>
    rw [List.takeWhile_cons, List.dropWhile_cons]
    split
    · exact ih
    · rfl

/-- A character that ends a search ends it in a longer text too. -/
theorem takeWhile_append_cons {α : Type} {p : α → Bool} {a : α} (ha : p a = false)
    (as bs : List α) : (as ++ a :: bs).takeWhile p = as.takeWhile p := by
  induction as with
  | nil => exact List.takeWhile_cons_of_neg (by rw [ha]; exact Bool.false_ne_true)
  | cons c as ih => rw [List.cons_append, List.takeWhile_cons, List.takeWhile_cons, ih]

theorem dropWhile_append_cons {α : Type} {p : α → Bool} {a : α} (ha : p a = false)
    (as bs : List α) : (as ++ a :: bs).dropWhile p = as.dropWhile p ++ a :: bs := by
  induction as with
  | nil => exact List.dropWhile_cons_of_neg (by rw [ha]; exact Bool.false_ne_true)
  | cons c as ih =>
    rw [List.cons_append, List.dropWhile_cons, List.dropWhile_cons, ih]
    split
    · rfl
    · rfl

/-- A character that stands between segments. -/
def parts (c : Char) : Bool := c == '/' || c == '\\'

/-- A character that does not end a host. -/
def inHost (c : Char) : Bool := !"/\\?#".toList.contains c

/-- What is left of a path and a query when they are cut off at the fragment. -/
def body (rest : List Char) : List Char := rest.takeWhile (· != '#')

/-- What is left of a path when it is cut off at the query and the fragment. -/
def cutPath (rest : List Char) : List Char := (body rest).takeWhile (· != '?')

/-- An address with what follows its host. -/
def finish (u : Url) (rest : List Char) : Url where
  secure := u.secure
  user := u.user
  host := u.host
  port := u.port
  path := joinPath (pathSegments ((cutPath rest).drop 1))
  query := if (body rest).length = (cutPath rest).length then none
    else some (percentEncode encodedInQuery (((body rest).dropWhile (· != '?')).drop 1))
  fragment := if rest.length = (body rest).length then none
    else some (percentEncode encodedInFragment ((rest.dropWhile (· != '#')).drop 1))

/-- User, host and port that a text before the path names. -/
def authority? (secure : Bool) (cs : List Char) : Option Url :=
  let hostPort := (cs.reverse.takeWhile (· != '@')).reverse
  match host? (splitPort hostPort).1, port? secure (splitPort hostPort).2 with
  | some host, some port =>
    some ⟨secure, cs.take (cs.length - hostPort.length), host, port, [], none, none⟩
  | _, _ => none

/-- What follows the slashes behind a scheme. -/
def behindSlashes (r : List Char) : List Char := r.dropWhile parts

/-- The text of the host, with what stands around it, and what follows. -/
theorem parse?_eq (s : String) : parse? s = (scheme? (tidy s.toList)).bind fun x =>
    (authority? x.1 ((behindSlashes x.2).takeWhile inHost)).map fun v =>
      v.finish ((behindSlashes x.2).dropWhile inHost) := by
  rw [parse?]
  rcases scheme? (tidy s.toList) with _ | ⟨secure, r⟩
  · rfl
  · simp only [Option.bind_eq_bind, Option.bind_some, drop_length_takeWhile]
    have hslashes : (r.dropWhile fun c => c == '/' || c == '\\') = behindSlashes r := rfl
    have hhost : (fun c => !"/\\?#".toList.contains c) = inHost := rfl
    rw [hslashes, hhost, authority?]
    rcases host? (splitPort (((behindSlashes r).takeWhile inHost).reverse.takeWhile
      (· != '@')).reverse).1 with _ | host
    · rfl
    · rcases port? secure (splitPort (((behindSlashes r).takeWhile inHost).reverse.takeWhile
        (· != '@')).reverse).2 with _ | port
      · rfl
      · rfl

/-! ## A longer text -/

/-- A character that counts inside an address. -/
def counts (c : Char) : Bool := c != '\t' && c != '\n' && c != '\r'

/-- A text that may be put behind a slash: it is empty, or ends in a slash itself. -/
def Closed (x : List Char) : Prop := ∀ c ∈ x.getLast?, c = '/'

theorem closed_nil : Closed [] := fun c hc => by cases hc

theorem tidy_append (b : List Char) (hx : Closed x) :
    tidy (b ++ '/' :: x) = (b.dropWhile isControl).filter counts ++ '/' :: x.filter counts := by
  have hlast : ∃ y, '/' :: x = y ++ ['/'] := by
    rcases List.eq_nil_or_concat x with rfl | ⟨y, c, rfl⟩
    · exact ⟨[], rfl⟩
    · rw [List.concat_eq_append] at hx ⊢
      obtain rfl : c = '/' := hx c (by rw [List.getLast?_concat]; rfl)
      exact ⟨'/' :: y, rfl⟩
  have hslash : isControl '/' = false := by decide
  have hstart : (b ++ '/' :: x).dropWhile isControl = b.dropWhile isControl ++ '/' :: x :=
    dropWhile_append_cons hslash b x
  obtain ⟨y, hy⟩ := hlast
  have hend : ((b.dropWhile isControl ++ '/' :: x).reverse.dropWhile isControl).reverse =
      b.dropWhile isControl ++ '/' :: x := by
    rw [hy, ← List.append_assoc, List.reverse_append, List.reverse_singleton,
      List.singleton_append, List.dropWhile_cons_of_neg (by rw [hslash]; decide),
      List.reverse_cons, List.reverse_reverse]
  simp only [tidy, hstart, hend]
  change (b.dropWhile isControl ++ '/' :: x).filter counts = _
  rw [List.filter_append, List.filter_cons_of_pos (by decide)]

/-- The scheme is read from the shorter text. -/
theorem scheme?_append {t : List Char} (h : scheme? (t ++ ['/']) = some (secure, r)) :
    ∃ r', r = r' ++ ['/'] ∧ ∀ y, scheme? (t ++ '/' :: y) = some (secure, r' ++ '/' :: y) := by
  have hcolon : ':' ∈ t := by
    by_contra hno
    have hcontains : (t ++ ['/']).contains ':' = false := by
      rw [Bool.eq_false_iff, ne_eq, List.contains_iff_mem, List.mem_append, List.mem_singleton]
      exact not_or.mpr ⟨hno, by decide⟩
    simp only [scheme?, hcontains] at h
    cases h
  obtain ⟨name, r', rfl, hname⟩ := List.eq_append_cons_of_mem hcolon
  have hscheme : ∀ y, scheme? ((name ++ ':' :: r') ++ y) =
      if name.map Char.toLower = "http".toList then some (false, r' ++ y)
      else if name.map Char.toLower = "https".toList then some (true, r' ++ y) else none := by
    intro y
    have hall : ∀ c ∈ name, (c != ':') = true := fun c hc =>
      bne_iff_ne.mpr fun heq => hname (heq ▸ hc)
    have htext : (name ++ ':' :: r') ++ y = name ++ ':' :: (r' ++ y) := List.append_assoc _ _ _
    have hcontains : (name ++ ':' :: (r' ++ y)).contains ':' = true :=
      List.contains_iff_mem.mpr (List.mem_append_right _ List.mem_cons_self)
    rw [htext]
    simp only [scheme?, hcontains, if_true, List.takeWhile_append_of_pos hall,
      List.dropWhile_append_of_pos hall]
    rw [List.takeWhile_cons_of_neg (by decide), List.dropWhile_cons_of_neg (by decide),
      List.append_nil]
    rfl
  rw [hscheme] at h
  split_ifs at h with hhttp hhttps
  · obtain ⟨rfl, rfl⟩ := Prod.mk.inj (Option.some.inj h)
    exact ⟨r', rfl, fun y => by rw [hscheme, if_pos hhttp]⟩
  · obtain ⟨rfl, rfl⟩ := Prod.mk.inj (Option.some.inj h)
    exact ⟨r', rfl, fun y => by rw [hscheme, if_neg hhttp, if_pos hhttps]⟩

/-- **The host of a longer text is that of the shorter one.** -/
theorem parse?_append (h : parse? (String.ofList (b ++ ['/'])) = some base) :
    ∃ q, base = base.finish (q ++ ['/']) ∧
      ∀ x, Closed x → parse? (String.ofList (b ++ '/' :: x)) =
        some (base.finish (q ++ '/' :: x.filter counts)) := by
  rw [parse?_eq, String.toList_ofList, tidy_append b closed_nil] at h
  obtain ⟨⟨secure, r⟩, hscheme, hrest⟩ := Option.bind_eq_some_iff.mp h
  obtain ⟨r', rfl, hlonger⟩ := scheme?_append hscheme
  obtain ⟨v, hauthority, rfl⟩ := Option.map_eq_some_iff.mp hrest
  have hhost : inHost '/' = false := by decide
  -- the slashes behind the scheme end before the one at the end, or there is no host
  have hbehind : ∀ y, behindSlashes (r' ++ '/' :: y) = behindSlashes r' ++ '/' :: y := by
    have hne : behindSlashes r' ≠ [] := by
      intro hnil
      have hall : ∀ c ∈ r' ++ ['/'], parts c = true := by
        rw [List.forall_mem_append, List.forall_mem_singleton]
        exact ⟨List.dropWhile_eq_nil_iff.mp hnil, rfl⟩
      rw [behindSlashes, List.dropWhile_eq_nil_iff.mpr hall] at hauthority
      cases hauthority
    intro y
    rw [behindSlashes] at hne ⊢
    rw [List.dropWhile_append, if_neg (mt List.isEmpty_iff.mp hne)]
    rfl
  refine ⟨(behindSlashes r').dropWhile inHost, ?_, fun x hx => ?_⟩
  · rw [hbehind, dropWhile_append_cons hhost]
    rfl
  · rw [hbehind, takeWhile_append_cons hhost] at hauthority
    rw [parse?_eq, String.toList_ofList, tidy_append b hx, hlonger, Option.bind_some, hbehind,
      takeWhile_append_cons hhost, dropWhile_append_cons hhost, hauthority]
    rfl

/-! ## Segments -/

variable {done ss ts : List (List Char)} {s : List Char}

/-- What a segment that is not the last one makes of those before it. -/
def enterSegment (done : List (List Char)) (s : List Char) : List (List Char) :=
  if isTwoDots s then done.drop 1
  else if isDot s then done
  else percentEncode encodedInPath s :: done

theorem resolveSegments_cons (hne : ss ≠ []) :
    resolveSegments done (s :: ss) = resolveSegments (enterSegment done s) ss := by
  obtain ⟨t, ss, rfl⟩ := List.exists_cons_of_ne_nil hne
  rw [resolveSegments, enterSegment]
  · split_ifs <;> rfl
  · exact List.cons_ne_nil t ss

theorem resolveSegments_append (hne : ts ≠ []) :
    resolveSegments done (ss ++ ts) = resolveSegments (ss.foldl enterSegment done) ts := by
  induction ss generalizing done with
  | nil => rfl
  | cons s ss ih =>
    rw [List.cons_append, resolveSegments_cons (List.append_ne_nil_of_right_ne_nil ss hne), ih,
      List.foldl_cons]

/-- A segment stands for itself. -/
def isName (s : List Char) : Bool := !isDot s && !isTwoDots s

theorem enterSegment_of_isName (h : isName s = true) :
    enterSegment done s = percentEncode encodedInPath s :: done := by
  rw [isName, Bool.and_eq_true, Bool.not_eq_true', Bool.not_eq_true'] at h
  rw [enterSegment, h.1, h.2]
  rfl

/-- Segments that stand for themselves are put on top, one after the other. -/
theorem resolveSegments_of_isName (h : ∀ s ∈ ss, isName s = true) (done : List (List Char)) :
    resolveSegments done ss = (ss.map (percentEncode encodedInPath)).reverse ++ done := by
  induction ss generalizing done with
  | nil => rfl
  | cons s ss ih =>
    obtain ⟨hs, hss⟩ := List.forall_mem_cons.mp h
    have hstep : resolveSegments done (s :: ss) = resolveSegments (enterSegment done s) ss := by
      rcases eq_or_ne ss [] with rfl | hne
      · rw [isName, Bool.and_eq_true, Bool.not_eq_true', Bool.not_eq_true'] at hs
        simp only [resolveSegments, enterSegment, hs.1, hs.2]
        rfl
      · exact resolveSegments_cons hne
    rw [hstep, ih hss, enterSegment_of_isName hs, List.map_cons, List.reverse_cons,
      List.append_assoc]
    rfl

/-! ### Dot segments -/

/-- Lower case moves capitals, and nothing else. -/
theorem toLower_cases (c : Char) :
    c.toLower = c ∨ 65 ≤ c.toNat ∧ c.toLower.toNat = c.toNat + 32 := by
  delta Char.toLower
  split
  · rename_i hcapital
    have hfrom : 65 ≤ c.val.toNat := UInt32.le_iff_toNat_le.mp hcapital.1
    have hto : c.val.toNat ≤ 90 := UInt32.le_iff_toNat_le.mp hcapital.2
    refine Or.inr ⟨hfrom, ?_⟩
    change (c.val + 32).toNat = c.val.toNat + 32
    rw [UInt32.toNat_add]
    exact Nat.mod_eq_of_lt (Nat.lt_of_le_of_lt (Nat.add_le_add_right hto 32) (by decide))
  · exact Or.inl rfl

theorem eq_of_toLower_eq {c d : Char} (h : c.toLower = d) (hd : d.toNat < 97) : c = d := by
  rcases toLower_cases c with hc | ⟨hfrom, hc⟩
  · exact hc.symm.trans h
  · rw [h] at hc
    omega

theorem eq_of_toLower_eq_e {c : Char} (h : c.toLower = 'e') : c = 'e' ∨ c = 'E' := by
  rcases toLower_cases c with hc | ⟨-, hc⟩
  · exact Or.inl (hc.symm.trans h)
  · rw [h] at hc
    exact Or.inr (Char.toNat_inj.mp (Nat.add_right_cancel hc.symm))

/-- A dot segment reads as a dot. -/
theorem percentDecode_of_isDot (h : isDot s = true) (bs : List UInt8) :
    percentDecode (encode s ++ bs) = 46 :: percentDecode bs := by
  rw [isDot, Bool.or_eq_true, beq_iff_eq, beq_iff_eq] at h
  rcases h with h | h
  · obtain ⟨c, _, rfl, hc, hnil⟩ := List.map_eq_cons_iff.mp h
    obtain rfl := List.map_eq_nil_iff.mp hnil
    obtain rfl := eq_of_toLower_eq hc (by decide)
    exact percentDecode_cons_of_ne (by decide)
  · obtain ⟨c, _, rfl, hc, h⟩ := List.map_eq_cons_iff.mp h
    obtain ⟨d, _, rfl, hd, h⟩ := List.map_eq_cons_iff.mp h
    obtain ⟨e, _, rfl, he, hnil⟩ := List.map_eq_cons_iff.mp h
    obtain rfl := List.map_eq_nil_iff.mp hnil
    obtain rfl := eq_of_toLower_eq hc (by decide)
    obtain rfl := eq_of_toLower_eq hd (by decide)
    rcases eq_of_toLower_eq_e he with rfl | rfl
    · exact percentDecode_pair (by decide)
    · exact percentDecode_pair (by decide)

/-- A segment that reads as it is written is a dot segment only if it is a dot. -/
theorem eq_of_isDot (h : isDot s = true) (hs : percentDecode (encode s) = encode s) :
    s = ['.'] := by
  have hdot := percentDecode_of_isDot h []
  rw [List.append_nil, hs] at hdot
  exact encode_injective hdot

/-- Two dots are a dot segment after another. -/
theorem exists_append_of_isTwoDots (h : isTwoDots s = true) :
    ∃ s₁ s₂, s = s₁ ++ s₂ ∧ isDot s₁ = true ∧ isDot s₂ = true := by
  have hdot : ∀ {s₁ : List Char}, isDot s₁ = true ↔
      s₁.map Char.toLower = ['.'] ∨ s₁.map Char.toLower = "%2e".toList := by
    intro s₁
    rw [isDot, Bool.or_eq_true, beq_iff_eq, beq_iff_eq]
  have hsplit : ∀ {as bs : List Char}, (as = ['.'] ∨ as = "%2e".toList) →
      (bs = ['.'] ∨ bs = "%2e".toList) → s.map Char.toLower = as ++ bs →
        ∃ s₁ s₂, s = s₁ ++ s₂ ∧ isDot s₁ = true ∧ isDot s₂ = true := by
    intro as bs has hbs heq
    obtain ⟨s₁, s₂, rfl, rfl, rfl⟩ := List.map_eq_append_iff.mp heq
    exact ⟨s₁, s₂, rfl, hdot.mpr has, hdot.mpr hbs⟩
  simp only [isTwoDots, Bool.or_eq_true, beq_iff_eq] at h
  rcases h with ((h | h) | h) | h
  · exact hsplit (Or.inl rfl) (Or.inl rfl) h
  · exact hsplit (Or.inl rfl) (Or.inr rfl) h
  · exact hsplit (Or.inr rfl) (Or.inl rfl) h
  · exact hsplit (Or.inr rfl) (Or.inr rfl) h

theorem eq_of_isTwoDots (h : isTwoDots s = true) (hs : percentDecode (encode s) = encode s) :
    s = ['.', '.'] := by
  obtain ⟨s₁, s₂, rfl, h₁, h₂⟩ := exists_append_of_isTwoDots h
  have hdots := percentDecode_of_isDot h₁ (encode s₂ ++ [])
  rw [percentDecode_of_isDot h₂, List.append_nil, ← encode_append, hs] at hdots
  exact encode_injective hdots

/-- A segment that reads as it is written stands for itself, unless it is one or two dots. -/
theorem isName_of_ne (h : s ≠ ['.']) (h' : s ≠ ['.', '.'])
    (hs : percentDecode (encode s) = encode s) : isName s = true := by
  rw [isName, Bool.and_eq_true, Bool.not_eq_true', Bool.not_eq_true']
  exact ⟨Bool.eq_false_iff.mpr fun hdot => h (eq_of_isDot hdot hs),
    Bool.eq_false_iff.mpr fun hdots => h' (eq_of_isTwoDots hdots hs)⟩

/-! ### Where segments come from -/

/-- Entering a segment puts it on top, or takes something away. -/
theorem enterSegment_cases (done : List (List Char)) (s : List Char) :
    isName s = true ∧ enterSegment done s = percentEncode encodedInPath s :: done ∨
      ∃ k, enterSegment done s = done.drop k := by
  rw [enterSegment]
  split_ifs with habove hhere
  · exact Or.inr ⟨1, rfl⟩
  · exact Or.inr ⟨0, rfl⟩
  · refine Or.inl ⟨?_, rfl⟩
    rw [isName, Bool.eq_false_iff.mpr habove, Bool.eq_false_iff.mpr hhere]
    rfl

/-- The last segment is entered like the others, but leaves an empty one if it is none. -/
theorem resolveSegments_singleton (done : List (List Char)) (s : List Char) :
    isName s = true ∧ resolveSegments done [s] = percentEncode encodedInPath s :: done ∨
      ∃ k, resolveSegments done [s] = [] :: done.drop k := by
  rw [resolveSegments]
  split_ifs with habove hhere
  · exact Or.inr ⟨1, rfl⟩
  · exact Or.inr ⟨0, rfl⟩
  · refine Or.inl ⟨?_, rfl⟩
    rw [isName, Bool.eq_false_iff.mpr habove, Bool.eq_false_iff.mpr hhere]
    rfl

/-- A resolved segment is empty, or one of the segments of a path that stand for themselves. -/
def ComesFrom (ss : List (List Char)) (x : List Char) : Prop :=
  x = [] ∨ ∃ s ∈ ss, isName s = true ∧ x = percentEncode encodedInPath s

theorem ComesFrom.cons {x : List Char} (h : ComesFrom ss x) (s : List Char) :
    ComesFrom (s :: ss) x :=
  h.imp_right fun ⟨t, ht, hname, hx⟩ => ⟨t, List.mem_cons_of_mem s ht, hname, hx⟩

/-- **Resolved segments come from those that are resolved,** and stand on the first of those that
were there before. -/
theorem resolveSegments_eq_append (done ss : List (List Char)) :
    ∃ xs k, resolveSegments done ss = xs ++ done.drop k ∧ ∀ x ∈ xs, ComesFrom ss x := by
  induction ss generalizing done with
  | nil => exact ⟨[], 0, rfl, fun x hx => absurd hx List.not_mem_nil⟩
  | cons s ss ih =>
    rcases eq_or_ne ss [] with rfl | hne
    · rcases resolveSegments_singleton done s with ⟨hname, hs⟩ | ⟨k, hs⟩
      · exact ⟨[percentEncode encodedInPath s], 0, hs, List.forall_mem_singleton.mpr
          (Or.inr ⟨s, List.mem_cons_self, hname, rfl⟩)⟩
      · exact ⟨[[]], k, hs, List.forall_mem_singleton.mpr (Or.inl rfl)⟩
    · obtain ⟨xs, k, hxs, hfrom⟩ := ih (enterSegment done s)
      have hrest : ∀ x ∈ xs, ComesFrom (s :: ss) x := fun x hx => (hfrom x hx).cons s
      rw [resolveSegments_cons hne, hxs]
      rcases enterSegment_cases done s with ⟨hname, hs⟩ | ⟨j, hs⟩
      · rw [hs]
        rcases k with _ | k
        · refine ⟨xs ++ [percentEncode encodedInPath s], 0, by simp, ?_⟩
          rw [List.forall_mem_append, List.forall_mem_singleton]
          exact ⟨hrest, Or.inr ⟨s, List.mem_cons_self, hname, rfl⟩⟩
        · exact ⟨xs, k, rfl, hrest⟩
      · exact ⟨xs, j + k, by rw [hs, List.drop_drop], hrest⟩

theorem ComesFrom.slash_not_mem {x : List Char} (h : ComesFrom ss x)
    (hss : ∀ s ∈ ss, '/' ∉ s) : '/' ∉ x := by
  rcases h with rfl | ⟨s, hs, -, rfl⟩
  · exact List.not_mem_nil
  · exact slash_not_mem_percentEncode (hss s hs)

/-- No slash comes into resolved segments. -/
theorem slash_not_mem_resolveSegments (hdone : ∀ s ∈ done, '/' ∉ s) (hss : ∀ s ∈ ss, '/' ∉ s) :
    ∀ s ∈ resolveSegments done ss, '/' ∉ s := by
  obtain ⟨xs, k, hxs, hfrom⟩ := resolveSegments_eq_append done ss
  rw [hxs, List.forall_mem_append]
  exact ⟨fun x hx => (hfrom x hx).slash_not_mem hss, fun s hs => hdone s (List.mem_of_mem_drop hs)⟩

/-- A path is cut at its slashes into nothing and its segments. -/
theorem splitAtClass_joinPath (hss : ∀ s ∈ ss, '/' ∉ s) :
    splitAtClass (· == '/') (joinPath ss) = [] :: ss := by
  induction ss with
  | nil => rfl
  | cons s ss ih =>
    obtain ⟨hs, hss⟩ := List.forall_mem_cons.mp hss
    have hsolid : ∀ c ∈ s, (c == '/') = false := fun c hc =>
      beq_eq_false_iff_ne.mpr fun heq => hs (heq ▸ hc)
    have hsegment : splitAtClass (· == '/') (s ++ joinPath ss) = s :: ss := by
      rcases ss with _ | ⟨t, ts⟩
      · rw [joinPath, List.flatMap_nil, List.append_nil, splitAtClass_of_solid hsolid]
      · have hrest := ih hss
        have hpath : joinPath (t :: ts) = '/' :: (t ++ joinPath ts) := rfl
        rw [hpath, splitAtClass, if_pos (by decide)] at hrest
        rw [hpath, splitAtClass_append_cons s (by decide), splitAtClass_of_solid hsolid,
          (List.cons.inj hrest).2]
        rfl
    have hpath : joinPath (s :: ss) = '/' :: (s ++ joinPath ss) := rfl
    rw [hpath, splitAtClass, if_pos (by decide), hsegment]

/-- **Segments without slashes are told by the path.** -/
theorem joinPath_injective (hss : ∀ s ∈ ss, '/' ∉ s) (hts : ∀ s ∈ ts, '/' ∉ s)
    (h : joinPath ss = joinPath ts) : ss = ts := by
  have hsplit := congrArg (splitAtClass (· == '/')) h
  rw [splitAtClass_joinPath hss, splitAtClass_joinPath hts] at hsplit
  exact (List.cons.inj hsplit).2

theorem joinPath_append (ss ts : List (List Char)) :
    joinPath (ss ++ ts) = joinPath ss ++ joinPath ts :=
  List.flatMap_append

/-! ## Below an address -/

/-- A character that ends a path. -/
def endsPath (c : Char) : Bool := c == '?' || c == '#'

theorem cutPath_eq (rest : List Char) : cutPath rest = rest.takeWhile (!endsPath ·) := by
  have hends : ∀ c, (!endsPath c) = decide (c != '?' ∧ c != '#') := fun c => by
    rw [endsPath, Bool.not_or, Bool.decide_and, Bool.decide_eq_true, Bool.decide_eq_true]
    rfl
  rw [cutPath, body, List.takeWhile_takeWhile]
  exact congrArg (fun p => rest.takeWhile p) (funext fun c => (hends c).symm)

theorem endsPath_of_mem_cutPath {c : Char} (hc : c ∈ cutPath rest) : endsPath c = false := by
  rw [cutPath_eq] at hc
  have hkept : (!endsPath c) = true := List.mem_takeWhile_imp (p := (!endsPath ·)) hc
  exact (Bool.not_eq_true' _).mp hkept

theorem cutPath_sublist (rest : List Char) : (cutPath rest).Sublist rest := by
  rw [cutPath_eq]
  exact List.takeWhile_sublist _

/-- As long as nothing ends the path, all is path. -/
theorem cutPath_append (h : ∀ c ∈ x, endsPath c = false) (y : List Char) :
    cutPath (x ++ y) = x ++ cutPath y := by
  rw [cutPath_eq, cutPath_eq, List.takeWhile_append_of_pos]
  exact fun c hc => (Bool.not_eq_true' _).mpr (h c hc)

theorem cutPath_of_bare (h : ∀ c ∈ x, endsPath c = false) : cutPath x = x := by
  have hx : cutPath (x ++ []) = x ++ [] := cutPath_append h []
  rwa [List.append_nil] at hx

/-- What follows the end of the path does not come into it. -/
theorem cutPath_append_of_endsPath {c : Char} (hc : c ∈ x) (hend : endsPath c = true)
    (y : List Char) : cutPath (x ++ y) = cutPath x := by
  have hshort : (x.takeWhile (!endsPath ·)).length ≠ x.length := fun hlength => by
    have hall := List.takeWhile_eq_self_iff.mp ((List.takeWhile_prefix _).eq_of_length hlength) c hc
    rw [hend] at hall
    cases hall
  rw [cutPath_eq, cutPath_eq, List.takeWhile_append, if_neg hshort]

theorem query_finish_eq_none : (u.finish rest).query = none ↔ cutPath rest = body rest := by
  have hquery : (u.finish rest).query = none ↔ (body rest).length = (cutPath rest).length := by
    simp only [finish, ite_eq_left_iff, reduceCtorEq, imp_false, not_not]
  rw [hquery]
  exact ⟨fun h => (List.takeWhile_prefix _).eq_of_length h.symm, fun h => by rw [h]⟩

theorem fragment_finish_eq_none : (u.finish rest).fragment = none ↔ body rest = rest := by
  have hfragment : (u.finish rest).fragment = none ↔ rest.length = (body rest).length := by
    simp only [finish, ite_eq_left_iff, reduceCtorEq, imp_false, not_not]
  rw [hfragment]
  exact ⟨fun h => (List.takeWhile_prefix _).eq_of_length h.symm, fun h => by rw [h]⟩

/-- An address has neither query nor fragment if nothing in it ends the path. -/
theorem finish_bare_iff : (u.finish rest).query = none ∧ (u.finish rest).fragment = none ↔
    ∀ c ∈ rest, endsPath c = false := by
  rw [query_finish_eq_none, fragment_finish_eq_none]
  constructor
  · rintro ⟨hcut, hbody⟩ c hc
    rw [← hbody, ← hcut] at hc
    exact endsPath_of_mem_cutPath hc
  · intro hbare
    have hcut := cutPath_of_bare hbare
    have hbody : body rest = rest := (List.takeWhile_prefix _).eq_of_length_le <| by
      conv_lhs => rw [← hcut]
      exact (List.takeWhile_prefix _).length_le
    exact ⟨hcut.trans hbody.symm, hbody⟩

/-- **What a text asks for below another one:** its segments are resolved on top of those that
stand there. -/
theorem exists_below (h : ∀ c ∈ x, endsPath c = false) :
    ∃ done, (∀ s ∈ done, '/' ∉ s) ∧ ∀ (u : Url) y, (u.finish (x ++ '/' :: y)).path =
      joinPath (resolveSegments done (splitAtClass parts (cutPath y))).reverse := by
  have hslash : endsPath '/' = false := by decide
  have hparts : parts '/' = true := by decide
  have hcut : ∀ y, cutPath (x ++ '/' :: y) = x ++ '/' :: cutPath y := fun y => by
    have hpath : ∀ c ∈ x ++ ['/'], endsPath c = false :=
      List.forall_mem_append.mpr ⟨h, List.forall_mem_singleton.mpr hslash⟩
    have := cutPath_append hpath y
    rwa [List.append_assoc, List.append_assoc] at this
  rcases x with _ | ⟨c, x⟩
  · refine ⟨[], fun s hs => absurd hs List.not_mem_nil, fun u y => ?_⟩
    rw [finish, hcut]
    rfl
  · -- the segments of the shorter text are entered one after the other
    obtain ⟨done, hdone⟩ : ∃ done, done = (splitAtClass parts x).foldl enterSegment [] := ⟨_, rfl⟩
    have hresolve : ∀ {ts : List (List Char)}, ts ≠ [] →
        resolveSegments [] (splitAtClass parts x ++ ts) = resolveSegments done ts := fun hts => by
      rw [resolveSegments_append hts, hdone]
    refine ⟨done, ?_, fun u y => ?_⟩
    · have hsegments : ∀ s ∈ splitAtClass parts x ++ [[]], '/' ∉ s := by
        rw [List.forall_mem_append, List.forall_mem_singleton]
        refine ⟨fun s hs hmem => ?_, List.not_mem_nil⟩
        exact absurd ((of_mem_splitAtClass hs).2 '/' hmem) (by decide)
      have hresolved := slash_not_mem_resolveSegments
        (fun s hs => absurd hs List.not_mem_nil) hsegments
      rw [hresolve (List.cons_ne_nil _ _)] at hresolved
      exact (List.forall_mem_cons.mp hresolved).2
    · have hsplit : pathSegments (x ++ '/' :: cutPath y) =
          (resolveSegments done (splitAtClass parts (cutPath y))).reverse := by
        rw [← hresolve (splitAtClass_ne_nil _ _), ← splitAtClass_append_cons x hparts]
        rfl
      rw [finish, hcut]
      exact congrArg joinPath hsplit

end MarkdownIndex.Http.Url
