import MarkdownIndex.Proofs.Files.Order
import MarkdownIndex.Proofs.Watch.Handed

/-!
# Differences: what a watcher hands over in all, and when it stops

A watcher compares each good look with the good look before. So between a file's having one time and
its having another there is a round that hands it over, wherever the looks in between fall and
whichever of them fail.

* `mem_changes_iff`, `change?_eq_modified_iff`, `change?_eq_created_iff` — the differences of two
  snapshots, by kind; `increasing_changes` — they are in the order of paths.
* `Fresh`, `Fresh.through` — a file is in a snapshot with a time that is not known; then it is so
  with any snapshot in between, on one side of it or on the other.
* `HandedOver`, `handedOver_of_time?` — no difference from the start to the end is lost.
* `Differs`, `Differs.insert` — the files that are handed over, told from the looks alone; a further
  look takes none of them away.
* `Strung`, `Strung.cut` — what a watcher asks that may be told to stop: nothing for another file,
  once it has been.
* `hands_over_differences` — **all of it.**
-/

namespace MarkdownIndex

open Files Ingestor Program

/-! ## Differences of snapshots -/

namespace Snapshot

variable {old mid new : Snapshot} {p q : Path} {time : Int} {c : Change}

theorem time?_congr (h : Path.same p q = true) (s : Snapshot) : s.time? p = s.time? q := by
  have hcomponents : Path.components p = Path.components q := beq_iff_eq.mp h
  simp only [time?, Path.same, hcomponents]

theorem change?_eq_modified_iff :
    old.change? p time = some ⟨p, .modified⟩ ↔
      ∃ before, old.time? p = some before ∧ before ≠ time := by
  rw [change?]
  cases old.time? p with
  | none => simp
  | some before => simp

theorem change?_eq_created_iff : old.change? p time = some ⟨p, .created⟩ ↔ old.time? p = none := by
  rw [change?]
  cases old.time? p with
  | none => simp
  | some before => simp

theorem path_of_change? (h : old.change? p time = some c) : c.path = p := by
  rw [change?] at h
  split at h
  · exact Option.some.inj h ▸ rfl
  · split at h
    · cases h
    · exact Option.some.inj h ▸ rfl

/-- The changes are those of the files that are listed. -/
theorem mem_changes_iff :
    c ∈ old.changes new ↔ ∃ time, (c.path, time) ∈ new ∧ old.change? c.path time = some c := by
  rw [changes, List.mem_mergeSort, List.mem_filterMap]
  constructor
  · rintro ⟨⟨q, time⟩, hq, hc⟩
    obtain rfl := path_of_change? hc
    exact ⟨time, hq, hc⟩
  · rintro ⟨time, hp, hc⟩
    exact ⟨(c.path, time), hp, hc⟩

/-- **The changes are in the order of their paths,** and of no path there are two. -/
theorem increasing_changes (h : Path.Distinct (new.map Prod.fst)) :
    Path.Increasing ((old.changes new).map Change.path) := by
  refine Path.increasing_mergeSort (List.Pairwise.sublist ?_ h)
  clear h
  induction new with
  | nil => exact List.Sublist.refl []
  | cons e new ih =>
    obtain ⟨q, time⟩ := e
    cases hc : old.change? q time with
    | none =>
      simp only [List.filterMap_cons, hc]
      exact ih.cons q
    | some c =>
      simp only [List.filterMap_cons, hc, List.map_cons, path_of_change? hc]
      exact ih.cons_cons q

/-- A file is in a snapshot, with a time that is not the one that is known. -/
def Fresh (known current : Snapshot) (p : Path) : Prop :=
  ∃ q time, Path.same q p = true ∧ (q, time) ∈ current ∧ known.time? q ≠ some time

theorem fresh_of_time? (h : new.time? p = some time) (hne : old.time? p ≠ some time) :
    Fresh old new p := by
  obtain ⟨q, hq, hsame⟩ := exists_mem_of_time? h
  exact ⟨q, time, hsame, hq, time?_congr hsame old ▸ hne⟩

/-- **Whatever snapshot comes in between,** a file is fresh there or afterwards. -/
theorem Fresh.through (h : Fresh old new p) (mid : Snapshot) :
    Fresh old mid p ∨ Fresh mid new p := by
  obtain ⟨q, time, hsame, hq, hne⟩ := h
  by_cases hmid : mid.time? q = some time
  · obtain ⟨q', time', hsame', hq', hne'⟩ := fresh_of_time? hmid hne
    refine Or.inl ⟨q', time', ?_, hq', hne'⟩
    exact beq_iff_eq.mpr ((beq_iff_eq.mp hsame').trans (beq_iff_eq.mp hsame))
  · exact Or.inr ⟨q, time, hsame, hq, hmid⟩

end Snapshot

open Snapshot

namespace Watcher

variable {g : Ingestor} {interval n : Nat} {known base current : Snapshot} {p : Path}
variable {r : Round} {rs us vs : List Round} {time : Int}

/-! ## One round -/

theorem Round.seen_of_ok (hlook : r.look = .ok current) : r.seen known = current := by
  rw [Round.seen, hlook]
  rfl

theorem Round.seen_of_error {e : ScanError} (hlook : r.look = .error e) : r.seen known = known := by
  rw [Round.seen, hlook]
  rfl

/-- The files that a round hands over, with what happened to them. -/
theorem Round.Follows.exists_change_iff (h : r.Follows g known) {c : Snapshot.Change} :
    (∃ x ∈ r.handings, x.change = c) ↔
      ∃ current time, r.look = .ok current ∧ (c.path, time) ∈ current ∧
        known.change? c.path time = some c := by
  have hmem : (∃ x ∈ r.handings, x.change = c) ↔ c ∈ r.handings.map Handing.change :=
    List.mem_map.symm
  rw [hmem, h.changes_eq]
  cases hlook : r.look with
  | error e =>
    refine iff_of_false List.not_mem_nil ?_
    rintro ⟨current, time, hok, -⟩
    cases hok
  | ok current =>
    rw [mem_changes_iff]
    constructor
    · rintro ⟨time, hp, hc⟩
      exact ⟨current, time, rfl, hp, hc⟩
    · rintro ⟨_, time, ⟨⟩, hp, hc⟩
      exact ⟨time, hp, hc⟩

/-- They are handed over in the order of their paths. -/
theorem Round.Follows.increasing (h : r.Follows g known) (hlook : r.look = .ok current)
    (hcurrent : Path.Distinct (current.map Prod.fst)) :
    Path.Increasing (r.handings.map fun x => x.change.path) := by
  have hchanges : r.handings.map Handing.change = known.changes current := by
    rw [h.changes_eq, hlook]
  have hpaths : r.handings.map (fun x => x.change.path) =
      (r.handings.map Handing.change).map Snapshot.Change.path := by
    rw [List.map_map]
    rfl
  rw [hpaths, hchanges]
  exact increasing_changes hcurrent

/-- A round that cannot list the files hands nothing over and forgets nothing. -/
theorem Round.Follows.of_error (h : r.Follows g known) {e : ScanError} (hlook : r.look = .error e) :
    r.handings = [] ∧ r.seen known = known := by
  have hchanges := h.changes_eq
  rw [hlook] at hchanges
  exact ⟨List.map_eq_nil_iff.mp hchanges, Round.seen_of_error hlook⟩

theorem Round.Follows.exists_same_iff (h : r.Follows g known) (hlook : r.look = .ok current) :
    (∃ x ∈ r.handings, Path.same x.change.path p = true) ↔ Fresh known current p := by
  constructor
  · rintro ⟨x, hx, hsame⟩
    obtain ⟨time, hmem, hne⟩ := (h.exists_handing_iff hlook).mp ⟨x, hx, rfl⟩
    exact ⟨x.change.path, time, hsame, hmem, hne⟩
  · rintro ⟨q, time, hsame, hmem, hne⟩
    obtain ⟨x, hx, rfl⟩ := (h.exists_handing_iff hlook).mpr ⟨time, hmem, hne⟩
    exact ⟨x, hx, hsame⟩

/-! ## All rounds -/

/-- A file is handed over in one of some rounds, under whatever spelling. -/
def HandedOver (rs : List Round) (p : Path) : Prop :=
  ∃ r ∈ rs, ∃ x ∈ r.handings, Path.same x.change.path p = true

theorem handedOver_cons :
    HandedOver (r :: rs) p ↔
      (∃ x ∈ r.handings, Path.same x.change.path p = true) ∨ HandedOver rs p := by
  simp only [HandedOver, List.exists_mem_cons_iff]

/-- **No difference is lost:** a file that is known in the end with a time that was not known in the
beginning has been handed over. -/
theorem handedOver_of_time? (h : Rounds g known rs) (hp : (seen known rs).time? p = some time)
    (hne : known.time? p ≠ some time) : HandedOver rs p := by
  induction rs generalizing known with
  | nil => exact absurd hp hne
  | cons r rs ih =>
    obtain ⟨hr, hrs⟩ := h
    rw [handedOver_cons]
    cases hlook : r.look with
    | error e =>
      rw [Round.seen_of_error hlook] at hrs
      rw [seen, List.foldl_cons, Round.seen_of_error hlook] at hp
      exact Or.inr (ih hrs hp hne)
    | ok current =>
      rw [Round.seen_of_ok hlook] at hrs
      rw [seen, List.foldl_cons, Round.seen_of_ok hlook] at hp
      by_cases hnow : current.time? p = some time
      · exact Or.inl ((hr.exists_same_iff hlook).mpr (fresh_of_time? hnow hne))
      · exact Or.inr (ih hrs hp hnow)

/-- A file differs from what is known in one of some looks, or from one look to the next. -/
def Differs (p : Path) : Snapshot → List (Except ScanError Snapshot) → Prop
  | _, [] => False
  | known, .error _ :: looks => Differs p known looks
  | known, .ok current :: looks => Fresh known current p ∨ Differs p current looks

/-- **What is handed over is told from the looks alone.** -/
theorem handedOver_iff (h : Rounds g known rs) :
    HandedOver rs p ↔ Differs p known (rs.map Round.look) := by
  induction rs generalizing known with
  | nil => exact iff_of_false (fun ⟨_, hr, _⟩ => List.not_mem_nil hr) not_false
  | cons r rs ih =>
    obtain ⟨hr, hrs⟩ := h
    rw [handedOver_cons, ih hrs, List.map_cons]
    cases hlook : r.look with
    | error e =>
      rw [(hr.of_error hlook).1, Round.seen_of_error hlook, Differs]
      exact or_iff_right fun ⟨_, hx, _⟩ => List.not_mem_nil hx
    | ok current =>
      rw [hr.exists_same_iff hlook, Round.seen_of_ok hlook, Differs]

variable {looks before after : List (Except ScanError Snapshot)}

theorem Differs.through (h : Differs p known looks) (mid : Snapshot) :
    Fresh known mid p ∨ Differs p mid looks := by
  induction looks with
  | nil => exact h.elim
  | cons look looks ih =>
    cases look with
    | error e => exact ih h
    | ok current =>
      rcases h with hfresh | hrest
      · exact (hfresh.through mid).imp_right Or.inl
      · exact Or.inr (Or.inr hrest)

/-- **A further look takes no file away.** -/
theorem Differs.insert (h : Differs p known (before ++ after)) (mid : Snapshot) :
    Differs p known (before ++ .ok mid :: after) := by
  induction before generalizing known with
  | nil => exact h.through mid
  | cons look before ih =>
    cases look with
    | error e => exact ih h
    | ok current => exact h.imp_right ih

/-! ## Told to stop -/

end Watcher

/-- A request that a watcher makes for itself: it rests, looks at the files, or is told to stop. -/
def Exchange.Idle : Exchange Work.interface → Prop
  | ⟨.host (.rest _), _⟩ => True
  | ⟨.host (.snapshot _), _⟩ => True
  | ⟨.host .stopping, told⟩ => told = true
  | _ => False

namespace Watcher

variable {g : Ingestor} {interval n : Nat} {known : Snapshot} {cs : List Snapshot.Change}
variable {t u v : List (Exchange Work.interface)} {es : List WatchEvent}

/-- What a watcher asks, strung together of requests of its own and of files that it hands over. -/
inductive Strung (g : Ingestor) : List (Exchange Work.interface) → Prop
  /-- nothing -/
  | nil : Strung g []
  /-- a request of its own, and more -/
  | idle {x : Exchange Work.interface} {t : List (Exchange Work.interface)} (hx : x.Idle)
    (rest : Strung g t) : Strung g (x :: t)
  /-- a file that is handed over, and more -/
  | handing {t : List (Exchange Work.interface)} (x : Handing)
    (hx : Traces (g.processFile x.change.path).run x.trace x.outcome) (rest : Strung g t) :
    Strung g (x.exchanges ++ t)

theorem Strung.append (h : Strung g t) (h' : Strung g u) : Strung g (t ++ u) := by
  induction h with
  | nil => exact h'
  | idle hx _ ih => exact .idle hx ih
  | handing x hx _ ih =>
    rw [List.append_assoc]
    exact .handing x hx ih

theorem strung_handleAll (h : Traces (handleAll g cs) t es) : Strung g t := by
  induction cs generalizing t es with
  | nil =>
    obtain ⟨-, rfl⟩ := traces_done.mp h
    exact .nil
  | cons c cs ih =>
    obtain ⟨told, u, v, rfl, hu, hv⟩ := traces_bind.mp h
    obtain rfl := traces_ask.mp hu
    cases told with
    | true =>
      obtain ⟨-, rfl⟩ := traces_done.mp hv
      exact .idle rfl .nil
    | false =>
      obtain ⟨e, v₁, v₂, rfl, hhandle, hrest⟩ := traces_bind.mp hv
      obtain ⟨o, hrun, -⟩ := traces_bind_pure.mp hhandle
      obtain ⟨es', hall, -⟩ := traces_bind_pure.mp hrest
      exact .handing ⟨c, v₁, o⟩ hrun (ih hall)

theorem strung_poll {after : Snapshot × List WatchEvent} (h : Traces (poll g known) t after) :
    Strung g t := by
  obtain ⟨look, u, v, rfl, hu, hv⟩ := traces_bind.mp h
  obtain rfl := traces_ask.mp hu
  refine .idle trivial ?_
  cases look with
  | error e =>
    obtain ⟨-, rfl⟩ := traces_done.mp hv
    exact .nil
  | ok current =>
    obtain ⟨es, hall, -⟩ := traces_bind_pure.mp hv
    exact strung_handleAll hall

theorem strung_looks (h : Traces (looks g interval n known) t es) : Strung g t := by
  induction n generalizing known t es with
  | zero =>
    obtain ⟨-, rfl⟩ := traces_done.mp h
    exact .nil
  | succ n ih =>
    obtain ⟨told, u, v, rfl, hu, hv⟩ := traces_bind.mp h
    obtain rfl := traces_ask.mp hu
    refine .idle trivial ?_
    cases told with
    | true =>
      obtain ⟨-, rfl⟩ := traces_done.mp hv
      exact .nil
    | false =>
      obtain ⟨⟨known', es₁⟩, v₁, v₂, rfl, hpoll, hrest⟩ := traces_bind.mp hv
      obtain ⟨es₂, hlooks, -⟩ := traces_bind_pure.mp hrest
      exact (strung_poll hpoll).append (ih hlooks)

theorem strung_watch (h : Traces (watch g interval n) t es) : Strung g t := by
  obtain ⟨base, u, v, rfl, hbase, hlooks⟩ := traces_bind.mp h
  obtain ⟨first, hfirst, -⟩ := traces_bind_pure.mp hbase
  obtain rfl := traces_ask.mp hfirst
  exact .idle trivial (strung_looks hlooks)

/-- Where no file is handed over, all requests are a watcher's own. -/
theorem Strung.idle_of_not_mem (h : Strung g t) (ht : .goesOn ∉ t) : ∀ x ∈ t, x.Idle := by
  induction h with
  | nil => exact fun _ hx => absurd hx List.not_mem_nil
  | idle hx _ ih => exact List.forall_mem_cons.mpr ⟨hx, ih fun h => ht (List.mem_cons_of_mem _ h)⟩
  | handing x => exact absurd (List.mem_append_left _ List.mem_cons_self) ht

/-- A file has been handed over, and of its requests some are left. -/
def InProgress (g : Ingestor) (asked left : List (Exchange Work.interface)) : Prop :=
  ∃ (x : Handing) (before done : List (Exchange Work.interface)),
    Traces (g.processFile x.change.path).run x.trace x.outcome ∧
      asked = before ++ .goesOn :: done ∧ x.trace = done ++ left

theorem InProgress.append (h : InProgress g u v) (t : List (Exchange Work.interface)) :
    InProgress g (t ++ u) v := by
  obtain ⟨x, before, done, hx, rfl, htrace⟩ := h
  exact ⟨x, t ++ before, done, hx, (List.append_assoc t before _).symm, htrace⟩

/-- **Once a watcher is told to stop it begins with no other file:** what it still asks is the rest
for the file that it is at, if it is at one, and then requests of its own. -/
theorem Strung.cut (h : Strung g (u ++ v)) (hv : .goesOn ∉ v) :
    ∃ left own, v = left ++ own ∧ (∀ x ∈ own, x.Idle) ∧ (left = [] ∨ InProgress g u left) := by
  generalize ht : u ++ v = t at h
  induction h generalizing u with
  | nil =>
    obtain ⟨-, rfl⟩ := List.append_eq_nil_iff.mp ht
    exact ⟨[], [], rfl, fun _ hx => absurd hx List.not_mem_nil, Or.inl rfl⟩
  | @idle x t hx rest ih =>
    rcases List.append_eq_cons_iff.mp ht with ⟨rfl, rfl⟩ | ⟨u', rfl, rfl⟩
    · exact ⟨[], _, rfl, (Strung.idle hx rest).idle_of_not_mem hv, Or.inl rfl⟩
    · obtain ⟨left, own, hsplit, hown, hleft⟩ := ih rfl
      exact ⟨left, own, hsplit, hown, hleft.imp_right fun h => h.append [x]⟩
  | @handing t x hx rest ih =>
    rcases List.append_eq_append_iff.mp ht with ⟨w, hw, rfl⟩ | ⟨w, rfl, rfl⟩
    · -- it is told while the file is handed over, and before that it has not been
      rcases List.append_eq_cons_iff.mp hw.symm with ⟨rfl, rfl⟩ | ⟨done, rfl, htrace⟩
      · exact absurd (List.mem_append_left _ List.mem_cons_self) hv
      · refine ⟨w, t, rfl, rest.idle_of_not_mem fun h => hv (List.mem_append_right _ h), ?_⟩
        exact Or.inr ⟨x, [], done, hx, rfl, htrace⟩
    · obtain ⟨left, own, hsplit, hown, hleft⟩ := ih rfl
      exact ⟨left, own, hsplit, hown, hleft.imp_right fun h => h.append x.exchanges⟩

/-! ## All of it -/

/-- **A watcher hands over exactly the differences between successive good looks.** As long as it is
not told to stop it does rounds, each with one event for every file that it hands over. A file is
handed over as modified if it is listed with another time than in the last good look before, and as
created if it was not listed there; in the order of the paths, each of them once; and a round that
cannot list the files hands nothing over and forgets nothing. So no difference between the first
look and the last good one is lost, and a further look takes no file away. Once it is told to stop
it begins with no other file. -/
theorem hands_over_differences (g : Ingestor) (interval n : Nat) :
    (∀ t es, (∀ x ∈ t, ¬ x.Stops) → (Traces (watch g interval n) t es ↔
      ∃ (first : Except ScanError Snapshot) (rs : List Round), rs.length = n ∧
        Rounds g (first.toOption.getD []) rs ∧ t = watched g interval first rs ∧
          es = rs.flatMap Round.events)) ∧
    (∀ base rs, Rounds g base rs →
      (∀ us r vs, rs = us ++ r :: vs →
        (∀ p, (∃ x ∈ r.handings, x.change = ⟨p, .modified⟩) ↔
          ∃ current time before, r.look = .ok current ∧ (p, time) ∈ current ∧
            (seen base us).time? p = some before ∧ before ≠ time) ∧
        (∀ p, (∃ x ∈ r.handings, x.change = ⟨p, .created⟩) ↔
          ∃ current time, r.look = .ok current ∧ (p, time) ∈ current ∧
            (seen base us).time? p = none) ∧
        (∀ x ∈ r.handings, Traces (g.processFile x.change.path).run x.trace x.outcome) ∧
        (∀ current, r.look = .ok current → Path.Distinct (current.map Prod.fst) →
          Path.Increasing (r.handings.map fun x => x.change.path)) ∧
        (∀ e, r.look = .error e → r.handings = [] ∧ seen base (us ++ [r]) = seen base us)) ∧
      (∀ p time, (seen base rs).time? p = some time → base.time? p ≠ some time →
        HandedOver rs p) ∧
      (∀ before after extra rs', rs.map Round.look = before ++ after → Rounds g base rs' →
        rs'.map Round.look = before ++ .ok extra :: after →
          ∀ p, HandedOver rs p → HandedOver rs' p)) ∧
    (∀ u v es, Traces (watch g interval n) (u ++ v) es → .goesOn ∉ v →
      ∃ left own, v = left ++ own ∧ (∀ x ∈ own, x.Idle) ∧ (left = [] ∨ InProgress g u left)) := by
  refine ⟨fun t es ht => traces_watch_iff ht, fun base rs hrs => ⟨?_, ?_, ?_⟩, ?_⟩
  · rintro us r vs rfl
    have hr := hrs.follows
    refine ⟨fun p => ?_, fun p => ?_, hr.runs, fun current => hr.increasing, fun e hlook => ?_⟩
    · simp only [hr.exists_change_iff, change?_eq_modified_iff]
      constructor
      · rintro ⟨current, time, hlook, hp, before, hbefore, hne⟩
        exact ⟨current, time, before, hlook, hp, hbefore, hne⟩
      · rintro ⟨current, time, before, hlook, hp, hbefore, hne⟩
        exact ⟨current, time, hlook, hp, before, hbefore, hne⟩
    · simp only [hr.exists_change_iff, change?_eq_created_iff]
    · rw [seen, List.foldl_append, ← seen]
      exact hr.of_error hlook
  · exact fun p time hp hne => handedOver_of_time? hrs hp hne
  · intro before after extra rs' hlooks hrs' hlooks' p hp
    rw [handedOver_iff hrs, hlooks] at hp
    rw [handedOver_iff hrs', hlooks']
    exact hp.insert extra
  · exact fun u v es h hv => (strung_watch h).cut hv

/-- The files cannot be listed at first, and then one has appeared. -/
def belatedRounds : List Round :=
  [⟨.error (.noRoot Path.here), []⟩, ⟨.ok sampleSnapshot, [brokenHanding]⟩]

theorem rounds_belatedRounds : Rounds watchIngestor [] belatedRounds :=
  ⟨⟨rfl, fun _ hx => absurd hx List.not_mem_nil⟩, rounds_forgetfulRounds.1, trivial⟩

/-- It has been handed over, and still is if there is a look before in which it is not listed. -/
theorem handedOver_belatedRounds : HandedOver belatedRounds samplePath ∧
    HandedOver (⟨.ok [], []⟩ :: belatedRounds) samplePath := by
  have hall := (hands_over_differences watchIngestor 2000 2).2.1 [] belatedRounds
    rounds_belatedRounds
  have htime : (seen [] belatedRounds).time? samplePath = some 0 := by decide +kernel
  have hp : HandedOver belatedRounds samplePath :=
    hall.2.1 samplePath 0 htime (Option.some_ne_none _).symm
  have hnone : Snapshot.changes [] [] = [] := by simp [Snapshot.changes]
  have hrounds : Rounds watchIngestor [] (⟨.ok [], []⟩ :: belatedRounds) :=
    ⟨⟨hnone.symm, fun _ hx => absurd hx List.not_mem_nil⟩, rounds_belatedRounds⟩
  exact ⟨hp, hall.2.2 [] _ [] _ rfl hrounds rfl _ hp⟩

end Watcher

end MarkdownIndex
