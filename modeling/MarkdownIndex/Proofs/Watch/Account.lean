import MarkdownIndex.Proofs.Files.Text
import MarkdownIndex.Proofs.Watch.Scene
import MarkdownIndex.Watch

/-!
# Accounts: what has become of the last reading of a file

Ingestion reads a file once. What has become of these bytes can be told from the store and from what
has been asked: either the store has their hash, or the run that has read them has failed. The store
knows files by the texts of their paths, so this is about files that share theirs with no other.

* `lastRead?`, `pathsRead` — the last reading of a file, and all files that have been read.
* `FailedOn` — the last run on a file has failed on some bytes; `not_failedOn_of_ok` — it has not if
  that run ended well.
* `Accounts` — every last reading has come to one of these ends; runs keep it that way.
* `Caught` — a version of a file has been read, unless it is gone; nothing undoes that.
-/

namespace MarkdownIndex

open Relation Files Memory Program

/-! ## Readings -/

/-- What has been read of a file, if the request was for its bytes. -/
def Exchange.reading? (p : Path) :
    Exchange Work.interface → Option (Except FileError (List UInt8))
  | ⟨.host (.read q), r⟩ => if q = p then some r else none
  | _ => none

/-- The file that is read. -/
def Exchange.readPath? : Exchange Work.interface → Option Path
  | ⟨.host (.read q), _⟩ => some q
  | _ => none

/-- The files that have been read, in order. -/
def pathsRead (t : List (Exchange Work.interface)) : List Path :=
  t.filterMap Exchange.readPath?

/-- What has last been read of a file. -/
def lastRead? (p : Path) (t : List (Exchange Work.interface)) :
    Option (Except FileError (List UInt8)) :=
  (t.filterMap (Exchange.reading? p)).getLast?

section LastRead

variable {p q : Path} {t u : List (Exchange Work.interface)} {x : Exchange Work.interface}
variable {b : Except FileError (List UInt8)}

theorem Exchange.reading?_of_not_reads (h : ¬ x.Reads p) : x.reading? p = none := by
  obtain ⟨c, r⟩ := x
  rcases c with c | _ | _
  · cases c with
    | read q => exact if_neg h
    | _ => rfl
  · rfl
  · rfl

theorem Exchange.readPath?_of_blind (h : x.Blind) : x.readPath? = none := by
  obtain ⟨c, r⟩ := x
  rcases c with c | _ | _
  · cases c with
    | read q => exact h.elim
    | _ => rfl
  · rfl
  · rfl

theorem pathsRead_append : pathsRead (t ++ u) = pathsRead t ++ pathsRead u :=
  List.filterMap_append

theorem pathsRead_read_cons : pathsRead (.read p b :: t) = p :: pathsRead t := rfl

theorem pathsRead_of_blind (h : ∀ x ∈ t, x.Blind) : pathsRead t = [] :=
  List.filterMap_eq_nil_iff.mpr fun x hx => Exchange.readPath?_of_blind (h x hx)

theorem lastRead?_append :
    lastRead? p (t ++ u) = (lastRead? p u).or (lastRead? p t) := by
  rw [lastRead?, List.filterMap_append, List.getLast?_append, lastRead?, lastRead?]

theorem lastRead?_of_not_reads (h : ∀ x ∈ t, ¬ x.Reads p) : lastRead? p t = none := by
  rw [lastRead?, List.filterMap_eq_nil_iff.mpr fun x hx => Exchange.reading?_of_not_reads (h x hx),
    List.getLast?_nil]

theorem lastRead?_singleton (x : Exchange Work.interface) :
    lastRead? p [x] = x.reading? p := by
  rw [lastRead?, List.filterMap_cons]
  cases x.reading? p <;> rfl

theorem lastRead?_singleton_read : lastRead? p [.read p b] = some b :=
  (lastRead?_singleton _).trans (if_pos rfl)

/-- Other requests to the machine read nothing. -/
theorem lastRead?_singleton_host {c : Host.Call} {r : Host.Reply c} (hc : ∀ p, c ≠ .read p)
    (p : Path) : lastRead? p [(⟨.host c, r⟩ : Exchange Work.interface)] = none := by
  refine lastRead?_of_not_reads fun x hx => ?_
  obtain rfl := List.mem_singleton.mp hx
  cases c with
  | read q => exact absurd rfl (hc q)
  | _ => exact not_false

theorem lastRead?_of_blind (h : ∀ x ∈ t, x.Blind) : lastRead? p t = none :=
  lastRead?_of_not_reads fun x hx => (h x hx).not_reads p

theorem lastRead?_read_cons_of_ne (hne : p ≠ q) (h : ∀ x ∈ t, x.Blind) :
    lastRead? p (.read q b :: t) = none := by
  refine lastRead?_of_not_reads (List.forall_mem_cons.mpr ⟨fun hq => hne hq.symm, ?_⟩)
  exact fun x hx => (h x hx).not_reads p

/-- A file is read once in its own run, and no other is. -/
theorem Ingestor.Course.lastRead?_eq {g : Ingestor} {o : Except IngestError FileOutcome}
    (h : Course g q t o) :
    ∃ b u, t = .read q b :: u ∧ (∀ x ∈ u, x.Blind) ∧ pathsRead t = [q] ∧
      lastRead? q t = some b ∧ ∀ p, p ≠ q → lastRead? p t = none := by
  obtain ⟨b, u, rfl, hu⟩ := h.eq_cons
  refine ⟨b, u, rfl, hu, ?_, ?_, fun p hne => lastRead?_read_cons_of_ne hne hu⟩
  · rw [pathsRead_read_cons, pathsRead_of_blind hu]
  · rw [← List.singleton_append, lastRead?_append, lastRead?_of_blind hu,
      lastRead?_singleton_read, Option.none_or]

end LastRead

/-! ## Accounts -/

namespace Ingestor

variable {g : Ingestor} {p q : Path} {bytes : List UInt8} {m m' : Memory}
variable {t u : List (Exchange Work.interface)} {o : Except IngestError FileOutcome}

/-- The last run on a file has read some bytes and failed. -/
def FailedOn (g : Ingestor) (p : Path) (bytes : List UInt8)
    (t : List (Exchange Work.interface)) : Prop :=
  ∃ u v w e, t = u ++ v ++ w ∧ Traces (g.processFile p).run v (.error e) ∧
    .read p (.ok bytes) ∈ v ∧ lastRead? p w = none

theorem FailedOn.append (h : g.FailedOn p bytes t) (hu : lastRead? p u = none) :
    g.FailedOn p bytes (t ++ u) := by
  obtain ⟨v, w, x, e, rfl, hfailed, hread, hx⟩ := h
  refine ⟨v, w, x ++ u, e, List.append_assoc _ _ _, hfailed, hread, ?_⟩
  rw [lastRead?_append, hu, hx]
  rfl

/-- The last reading of a file is at one place only. -/
theorem append_read_inj {u u' v v' : List (Exchange Work.interface)}
    {b b' : Except FileError (List UInt8)} (h : u ++ .read p b :: v = u' ++ .read p b' :: v')
    (hv : lastRead? p v = none) (hv' : lastRead? p v' = none) : u = u' := by
  have hread {u v w : List (Exchange Work.interface)} {b : Except FileError (List UInt8)}
      (hw : w = u ++ .read p b :: v) : lastRead? p w ≠ none := by
    rw [hw, ← List.singleton_append, lastRead?_append, lastRead?_append, lastRead?_singleton_read]
    cases lastRead? p v <;> exact Option.some_ne_none _
  rcases List.append_eq_append_iff.mp h with ⟨_ | ⟨x, w⟩, hu, hw⟩ | ⟨_ | ⟨x, w⟩, hu, hw⟩
  · exact (hu.trans (List.append_nil u)).symm
  · exact absurd hv (hread (List.cons.inj hw).2)
  · exact hu.trans (List.append_nil u')
  · exact absurd hv' (hread (List.cons.inj hw).2)

/-- **A file whose last run has ended well has not been failed on.** -/
theorem not_failedOn_of_ok {v w : List (Exchange Work.interface)} {a : FileOutcome}
    (hv : Traces (g.processFile p).run v (.ok a)) (hw : lastRead? p w = none) :
    ¬ g.FailedOn p bytes (u ++ v ++ w) := by
  rintro ⟨u', v', w', e, heq, hv', -, hw'⟩
  obtain ⟨b, r, hr, hblind, -, -, -⟩ := (course_of_traces hv).lastRead?_eq
  obtain ⟨b', r', hr', hblind', -, -, -⟩ := (course_of_traces hv').lastRead?_eq
  have hlast {r w : List (Exchange Work.interface)} (hr : ∀ x ∈ r, x.Blind)
      (hw : lastRead? p w = none) : lastRead? p (r ++ w) = none := by
    rw [lastRead?_append, hw, lastRead?_of_blind hr, Option.none_or]
  have hsplit : u ++ .read p b :: (r ++ w) = u' ++ .read p b' :: (r' ++ w') := by
    simpa [hr, hr'] using heq
  obtain rfl := append_read_inj hsplit (hlast hblind hw) (hlast hblind' hw')
  have hruns : v ++ w = v' ++ w' := by simpa using heq
  cases (hv.of_append_eq hv' hruns).2

/-- What has last been read of a file, if anything has and no other file with the same text has been
read, has its hash in the store, or has been failed on. -/
structure Accounts (g : Ingestor) (m : Memory) (t : List (Exchange Work.interface)) : Prop where
  /-- the store can be relied on -/
  wellFormed : m.WellFormed
  /-- every last reading has come to an end -/
  hash_or_failed : ∀ p bytes, Path.Apart (pathsRead t) p → lastRead? p t = some (.ok bytes) →
    m.hash? (Path.text p) = some (Sha256.hexDigest bytes) ∨ g.FailedOn p bytes t

theorem accounts_nil (hm : m.WellFormed) : Accounts g m [] where
  wellFormed := hm
  hash_or_failed := fun _ _ _ h => nomatch h

/-- **A run accounts for what it reads,** and leaves the other files alone. -/
theorem Accounts.course {R : Store.Call → Prop} (h : Accounts g m t)
    (htraces : Traces (g.processFile q).run u o) (hg : Gives (Serves R) m u m') :
    Accounts g m' (t ++ u) where
  wellFormed := h.wellFormed.of_gives hg
  hash_or_failed := fun p bytes hone hread => by
    have hcourse := course_of_traces htraces
    obtain ⟨b, v, hv, -, hpaths, hlast, hothers⟩ := hcourse.lastRead?_eq
    rw [lastRead?_append] at hread
    rw [pathsRead_append, hpaths] at hone
    rcases eq_or_ne p q with rfl | hne
    · rw [hlast, Option.some_or] at hread
      obtain rfl := Option.some.inj hread
      cases o with
      | error e =>
        refine Or.inr ⟨t, u, [], e, (List.append_nil _).symm, htraces, ?_, rfl⟩
        rw [hv]
        exact List.mem_cons_self
      | ok a =>
        obtain ⟨bytes', v', hv', hhash⟩ := hcourse.hash?_of_ok h.wellFormed hg
        obtain rfl := Except.ok.inj (read_inj (List.cons.inj (hv.symm.trans hv')).1)
        exact Or.inl hhash
    · -- the file of the run has another text
      have htext : Path.text p ≠ Path.text q := fun heq =>
        hne (hone q (List.mem_append_right _ List.mem_cons_self) heq.symm).symm
      have hbefore := hone.of_subset (List.subset_append_left _ _)
      rw [hothers p hne, Option.none_or] at hread
      rcases h.hash_or_failed p bytes hbefore hread with hhash | hfailed
      · exact Or.inl ((hcourse.hash?_of_ne h.wellFormed hg htext).trans hhash)
      · exact Or.inr (hfailed.append (hothers p hne))

/-- What is asked in between has no effect. -/
theorem Accounts.append (h : Accounts g m t) (hu : ∀ p, lastRead? p u = none) :
    Accounts g m (t ++ u) where
  wellFormed := h.wellFormed
  hash_or_failed := fun p bytes hone hread => by
    rw [lastRead?_append, hu, Option.none_or] at hread
    rw [pathsRead_append] at hone
    have hbefore := hone.of_subset (List.subset_append_left _ _)
    exact (h.hash_or_failed p bytes hbefore hread).imp_right fun hfailed => hfailed.append (hu p)

end Ingestor

/-! ## Catching up with a file -/

/-- A version of a file has been there, and if it still is, it is what has last been read of the
file. -/
structure Caught (p : Path) (time : Int) (s : Scene) : Prop where
  /-- the version has been there -/
  had : s.Had p time
  /-- it has been read, unless there is another one -/
  lastRead_eq : modified? s.files p = some time → lastRead? p s.trace = some (Files.read s.files p)

section Caught

variable {s s' : Scene} {p : Path} {time : Int} {c : Work.Call} {r : Work.Reply c}
variable {α : Type} {w : Work α} {a : α} {g : Ingestor} {o : Except IngestError FileOutcome}

/-- Changes of the files do not undo it, since they would come with a new time. -/
theorem Caught.of_changes (h : Caught p time s) (hchange : ReflTransGen Scene.Change s s') :
    Caught p time s' := by
  obtain ⟨hlater, -, -, htrace⟩ := Scene.of_changes hchange
  refine ⟨hlater.had h.had, fun htime => ?_⟩
  obtain ⟨htime, hread⟩ := hlater.same h.had htime
  rw [htrace, hread]
  exact h.lastRead_eq htime

/-- A file that is read is read as it is. -/
theorem Live.reading?_eq (h : Live s c r s') {b : Except FileError (List UInt8)}
    (hb : Exchange.reading? p ⟨c, r⟩ = some b) : b = Files.read s'.files p := by
  have hsees := h.sees
  rcases c with c | _ | _
  · cases c with
    | read q =>
      obtain ⟨now, hr⟩ := hsees
      rcases eq_or_ne q p with rfl | hne
      · exact (Option.some.inj ((if_pos rfl).symm.trans hb)).symm.trans hr
      · cases (if_neg hne).symm.trans hb
    | _ => cases hb
  · cases hb
  · cases hb

theorem Live.lastRead?_of_host {c : Host.Call} {r : Host.Reply c} (h : Live s (.host c) r s')
    (hc : ∀ p, c ≠ .read p) : lastRead? p s'.trace = lastRead? p s.trace := by
  rw [h.trace_eq, lastRead?_append, lastRead?_singleton_host hc, Option.none_or]

/-- **Nothing undoes it.** -/
theorem Caught.live (h : Caught p time s) (hlive : Live s c r s') : Caught p time s' := by
  refine ⟨hlive.later.had h.had, fun htime => ?_⟩
  obtain ⟨htime', hread⟩ := hlive.later.same h.had htime
  rw [hlive.trace_eq, lastRead?_append, lastRead?_singleton]
  cases hreading : Exchange.reading? p ⟨c, r⟩ with
  | none =>
    rw [Option.none_or, hread]
    exact h.lastRead_eq htime'
  | some b => rw [Option.some_or, hlive.reading?_eq hreading]

theorem Caught.of_ends (h : Caught p time s) (hend : Ends Live w s a s') : Caught p time s' :=
  hend.keeps (P := Caught p time) (fun hs hstep => hs.live hstep) h

/-- **A run on a file catches up** with whatever there has been of it. -/
theorem caught_of_processFile (hend : Ends Live (g.processFile p).run s o s')
    (hhad : s.Had p time) : Caught p time s' := by
  obtain ⟨t, htraces, hgives⟩ := ends_iff_traces.mp hend
  obtain ⟨b, u, rfl, -⟩ := (Ingestor.course_of_traces htraces).eq_cons
  obtain ⟨s₁, hread, hrest⟩ := gives_cons.mp hgives
  refine hrest.keeps (P := Caught p time) (fun x _ {s s'} hs hstep => hs.live hstep) ?_
  refine ⟨hread.later.had hhad, fun _ => ?_⟩
  rw [hread.trace_eq, lastRead?_append, lastRead?_singleton_read, Option.some_or]
  exact congrArg some (hread.reading?_eq (if_pos rfl))

/-- A version that has been caught is accounted for. -/
theorem Caught.hash_or_failed (h : Caught p time s) (haccounts : g.Accounts s.memory s.trace)
    (hone : Path.Apart (pathsRead s.trace) p) (htime : modified? s.files p = some time) :
    ∃ bytes, Files.read s.files p = .ok bytes ∧
      (s.memory.hash? (Path.text p) = some (Sha256.hexDigest bytes) ∨
        g.FailedOn p bytes s.trace) := by
  obtain ⟨bytes, hbytes⟩ := exists_read_of_modified? htime
  have hlast := h.lastRead_eq htime
  rw [hbytes] at hlast
  exact ⟨bytes, hbytes, haccounts.hash_or_failed p bytes hone hlast⟩

end Caught

end MarkdownIndex
