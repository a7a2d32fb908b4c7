import MarkdownIndex.Proofs.Files.Regular
import MarkdownIndex.Proofs.Files.Text

/-!
# Spellings: one path leads to one file

A path can be spelled with doubled slashes, with dots inside and with a slash at its end. Each of
these asks for a directory where a shorter spelling asks for nothing, so one spelling may lead to a
file where another fails. But where two spellings lead somewhere, they lead to the same place.

* `filter_segments`, `isAbsolute_eq` — the segments that count are told by the components, and so is
  where a path starts.
* `eq_of_same_of_text_eq` — the spellings of a path have different texts.
* `Skips` — segments without some of those that do not count.
* `follow_of_skips` — fewer segments lead to the same place.
* `resolve_eq_of_same`, `read_eq_of_same` — the main results.
-/

namespace MarkdownIndex

open Text Files

/-! ## Segments that count -/

namespace Path

variable {p q : Path}

/-- A segment counts that is neither empty nor a dot. -/
def counts (s : FileName) : Bool := s != [] && s != here

/-- The segment that a component is spelled with, if it counts. -/
def Component.segment? : Component → Option FileName
  | .root => none
  | .here => none
  | .parent => some Path.parent
  | .name s => some s

theorem counts_iff {s : FileName} : counts s = true ↔ ¬ (s = [] ∨ s = here) := by
  rw [counts, Bool.and_eq_true, bne_iff_ne, bne_iff_ne, not_or]

theorem bind_component? (s : FileName) :
    (component? s).bind Component.segment? = if counts s then some s else none := by
  unfold component?
  split_ifs with hidle hcounts hparent hcounts hcounts
  · exact absurd hidle (counts_iff.mp hcounts)
  · rfl
  · rw [hparent]
    rfl
  · exact absurd (counts_iff.mpr hidle) hcounts
  · rfl
  · exact absurd (counts_iff.mpr hidle) hcounts

theorem filterMap_segment? (ss : List FileName) :
    (ss.filterMap component?).filterMap Component.segment? = ss.filter counts := by
  rw [List.filterMap_filterMap, ← List.filterMap_eq_filter]
  refine congrArg (fun f => ss.filterMap f) (funext fun s => ?_)
  rw [bind_component?, Option.guard]

theorem filterMap_lead (s : FileName) :
    (lead s).filterMap Component.segment? = [s].filter counts := by
  unfold lead
  split_ifs with hempty hdot
  · rw [hempty]
    rfl
  · rw [hdot]
    rfl
  · rw [← filterMap_segment?, List.filterMap_cons]
    cases component? s <;> rfl

/-- **The segments that count are told by the components.** -/
theorem filter_segments (p : Path) :
    (segments p).filter counts = (components p).filterMap Component.segment? := by
  by_cases hp : p = []
  · subst hp
    rfl
  · obtain ⟨s, ss, hss⟩ := List.exists_cons_of_ne_nil (segments_ne_nil p)
    rw [components_of_segments hp hss, hss, List.filterMap_append, filterMap_lead,
      filterMap_segment?, ← List.filter_append, List.singleton_append]

theorem filter_segments_of_same (h : same p q = true) :
    (segments p).filter counts = (segments q).filter counts := by
  rw [filter_segments, filter_segments, beq_iff_eq.mp h]

/-- **So is whether the path starts from the top.** -/
theorem isAbsolute_eq (p : Path) : isAbsolute p = ((components p).head? == some .root) := by
  cases p with
  | nil => rfl
  | cons b p =>
    by_cases hb : b = slash
    · subst hb
      rfl
    · have hsolid : (b == slash) = false := beq_eq_false_iff_ne.mpr hb
      obtain ⟨s, ss, hss⟩ := List.exists_cons_of_ne_nil (segments_ne_nil p)
      rw [segments] at hss
      have hsegments : segments (b :: p) = (b :: s) :: ss := by
        rw [segments, splitAtClass, hss]
        simp only [hsolid, Bool.false_eq_true, if_false, consLine]
      have habsolute : isAbsolute (b :: p) = false := by
        rw [isAbsolute, List.head?_cons, beq_eq_false_iff_ne]
        exact fun h => hb (Option.some.inj h)
      rw [habsolute, components_of_segments (List.cons_ne_nil _ _) hsegments, lead,
        if_neg (List.cons_ne_nil _ _)]
      unfold component?
      split_ifs with hhere hidle hparent
      · rfl
      · exact absurd hidle (not_or.mpr ⟨not_false, hhere⟩)
      · rfl
      · rfl

/-! ## The texts of spellings -/

variable {s s' : FileName} {ss ss' : List FileName}

/-- A path is its segments with slashes between them. -/
theorem intercalate_segments (p : Path) : [slash].intercalate (segments p) = p := by
  induction p with
  | nil => rfl
  | cons b p ih =>
    obtain ⟨s, ss, hss⟩ := List.exists_cons_of_ne_nil (segments_ne_nil p)
    rw [hss] at ih
    rw [segments, splitAtClass, ← segments, hss]
    split
    · rename_i hb
      rw [List.intercalate_cons_cons, ih, beq_iff_eq.mp hb, List.nil_append,
        List.singleton_append]
    · rw [consLine]
      cases ss with
      | nil => rw [List.intercalate_singleton] at ih ⊢; rw [ih]
      | cons s' ss =>
        rw [List.intercalate_cons_cons] at ih ⊢
        rw [List.cons_append, List.cons_append, ih]

theorem counts_eq_of_shown_eq (h : shown s = shown s') : counts s = counts s' := by
  rw [Bool.eq_iff_iff, counts_iff, counts_iff, ← shown_eq_nil_iff, ← shown_eq_here_iff, h,
    shown_eq_nil_iff, shown_eq_here_iff]

/-- A segment that does not count is told by how it is shown. -/
theorem eq_of_shown_eq (hs : counts s = false) (h : shown s = shown s') : s = s' := by
  rw [← Bool.not_eq_true, counts_iff, not_not] at hs
  rcases hs with rfl | rfl
  · exact (shown_eq_nil_iff.mp h.symm).symm
  · exact (shown_eq_here_iff.mp (h.symm.trans (shown_eq_here_iff.mpr rfl))).symm

/-- Segments are told by those that count and by how the others are shown. -/
theorem eq_of_filter_eq (hcounts : ss.filter counts = ss'.filter counts)
    (hshown : ss.map shown = ss'.map shown) : ss = ss' := by
  induction ss generalizing ss' with
  | nil => exact (List.map_eq_nil_iff.mp hshown.symm).symm
  | cons s ss ih =>
    obtain ⟨s', ss', rfl, hs, hss⟩ := List.map_eq_cons_iff.mp hshown.symm
    rw [List.filter_cons, List.filter_cons, counts_eq_of_shown_eq hs] at hcounts
    split at hcounts
    · obtain ⟨rfl, hrest⟩ := List.cons.inj hcounts
      rw [ih hrest hss.symm]
    · rename_i hidle
      rw [eq_of_shown_eq (Bool.eq_false_iff.mpr hidle) hs.symm, ih hcounts hss.symm]

/-- **The spellings of a path have different texts.** -/
theorem eq_of_same_of_text_eq (hsame : same p q = true) (h : text p = text q) : p = q := by
  have hshown : (segments p).map shown = (segments q).map shown := by
    rw [← segments_shown, ← segments_shown, ← ofText_text, ← ofText_text, h]
  have hsegments := eq_of_filter_eq (filter_segments_of_same hsame) hshown
  rw [← intercalate_segments p, hsegments, intercalate_segments]

end Path

/-! ## Following fewer segments -/

namespace Files

/-- Segments, and the same without some that do not count. -/
inductive Skips : List FileName → List FileName → Prop
  /-- nothing is left -/
  | nil : Skips [] []
  /-- a segment stays -/
  | keep (s : FileName) {ss ss' : List FileName} (h : Skips ss ss') : Skips (s :: ss) (s :: ss')
  /-- an empty one or a dot is left out -/
  | drop {s : FileName} (hs : s = [] ∨ s = Path.here) {ss ss' : List FileName} (h : Skips ss ss') :
    Skips (s :: ss) ss'

variable {disk : Disk} {top : Entry} {place there : Place} {links fuel fuel' : Nat} {p q : Path}
variable {s : FileName} {ss ss' : List FileName}

theorem Skips.append (h : Skips ss ss') (ahead : List FileName) :
    Skips (ahead ++ ss) (ahead ++ ss') := by
  induction ahead with
  | nil => exact h
  | cons s ahead ih => exact ih.keep s

theorem skips_filter (ss : List FileName) : Skips ss (ss.filter Path.counts) := by
  induction ss with
  | nil => exact Skips.nil
  | cons s ss ih =>
    rw [List.filter_cons]
    split
    · exact ih.keep _
    · rename_i hcounts
      rw [Path.counts_iff, not_not] at hcounts
      exact ih.drop hcounts

/-- A segment that does not count leads nowhere else. -/
theorem pass_idle {w : Way} (hs : s = [] ∨ s = Path.here) (h : pass top links place s = .ok w) :
    w = ⟨links, place, []⟩ := by
  rw [pass] at h
  split at h
  · rw [if_pos hs] at h
    exact (Except.ok.inj h).symm
  · cases h
  · cases h

/-- **Fewer segments lead to the same place,** in no more steps. -/
theorem follow_of_skips (h : Skips ss ss') (hle : fuel ≤ fuel')
    (hok : follow top false links fuel place ss = .ok there) :
    follow top false links fuel' place ss' = .ok there := by
  -- the induction is on the steps that are left, with whatever links have put in front
  induction fuel generalizing links place ss ss' fuel' with
  | zero =>
    rw [follow] at hok
    cases hok
  | succ fuel ih =>
    obtain ⟨more, rfl⟩ := Nat.exists_eq_add_of_le hle
    cases h with
    | nil =>
      rw [follow_nil] at hok
      rw [Nat.add_right_comm, follow_nil, hok]
    | @keep s ss ss' h =>
      rw [follow_cons] at hok
      rw [Nat.add_right_comm, follow_cons]
      cases hpass : pass top links place s with
      | error e =>
        rw [hpass] at hok
        cases hok
      | ok w =>
        rw [hpass] at hok
        exact ih (h.append w.ahead) (Nat.le_add_right fuel more) hok
    | @drop s hs ss ss' h =>
      rw [follow_cons] at hok
      cases hpass : pass top links place s with
      | error e =>
        rw [hpass] at hok
        cases hok
      | ok w =>
        obtain rfl := pass_idle hs hpass
        rw [hpass] at hok
        exact ih h (Nat.le_trans (Nat.le_succ fuel) hle) hok

/-! ## Spellings of one path -/

/-- A path that leads somewhere leads there by the segments that count. -/
theorem follow_of_resolve (h : resolve disk p = .ok there)
    (hle : stepsFor (Path.segments p).length ≤ fuel) :
    follow disk.top false maxLinks fuel (startOf disk.workplace p)
      ((Path.segments p).filter Path.counts) = .ok there :=
  follow_of_skips (skips_filter (Path.segments p)) hle (resolve_eq_ok_iff.mp h).2

/-- **Where two spellings of a path lead somewhere, they lead to the same place.** -/
theorem resolve_eq_of_same {here : Place} (hsame : Path.same p q = true)
    (hp : resolve disk p = .ok here) (hq : resolve disk q = .ok there) : here = there := by
  have hpath := follow_of_resolve hp (Nat.le_max_left _ (stepsFor (Path.segments q).length))
  have hother := follow_of_resolve hq (Nat.le_max_right (stepsFor (Path.segments p).length) _)
  have hstart : startOf disk.workplace p = startOf disk.workplace q := by
    rw [startOf, startOf, Path.isAbsolute_eq, Path.isAbsolute_eq q, beq_iff_eq.mp hsame]
  rw [hstart, Path.filter_segments_of_same hsame, hother] at hpath
  exact (Except.ok.inj hpath).symm

theorem exists_place_of_read {bytes : List UInt8} (h : read disk p = .ok bytes) :
    ∃ here t, resolve disk p = .ok here ∧ disk.top.at? here = some (.file bytes t) := by
  rw [read] at h
  split at h
  · cases h
  · rename_i here hresolve
    split at h
    · rename_i b t hat
      rw [← Except.ok.inj h]
      exact ⟨here, t, hresolve, hat⟩
    · cases h
    · cases h

/-- **Where two spellings of a path can be read, they give the same bytes.** -/
theorem read_eq_of_same {bytes bytes' : List UInt8} (hsame : Path.same p q = true)
    (hp : read disk p = .ok bytes) (hq : read disk q = .ok bytes') : bytes = bytes' := by
  obtain ⟨here, t, hhere, hat⟩ := exists_place_of_read hp
  obtain ⟨there, t', hthere, hat'⟩ := exists_place_of_read hq
  rw [resolve_eq_of_same hsame hhere hthere, hat'] at hat
  exact (Entry.file.inj (Option.some.inj hat)).1.symm

end Files

end MarkdownIndex
