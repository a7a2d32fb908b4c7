import Mathlib.Data.List.Nodup
import MarkdownIndex.Proofs.Files.Name

/-!
# Regular trees: every file is found, and by its path

Below some directory there are files and directories only, whose names are such as a machine allows.
Then a walk from there lists every file once, however deep it lies, and nothing can go wrong; and a
path made of the names leads to the file.

* `IsFileName`, `Entry.Regular` — the names that a machine allows, and the trees.
* `at?_directory`, `at?_append` — what lies at a place, name by name.
* `Lists`, `lists_walk` — **a walk lists the files,** by the names that lead to them.
* `Way`, `pass`, `follow_append`, `follow_names` — a path is followed up to a place, and from there
  by names.
* `resolve_pathOf`, `modified?_pathOf` — **the path of a file leads to it.**
-/

namespace MarkdownIndex

open Files

namespace Files

/-! ## Names and trees -/

/-- Bytes that a file can have as a name. -/
structure IsFileName (n : FileName) : Prop extends IsName n where
  /-- the byte that ends names is not in it -/
  no_nul : 0 ∉ n
  /-- it is not too long -/
  short : n.length ≤ maxNameBytes

instance (n : FileName) : Decidable (IsFileName n) :=
  decidable_of_iff (IsName n ∧ 0 ∉ n ∧ n.length ≤ maxNameBytes)
    ⟨fun ⟨hname, hnul, hshort⟩ => ⟨hname, hnul, hshort⟩,
      fun h => ⟨h.toIsName, h.no_nul, h.short⟩⟩

/-- A tree without links, in whose directories there are names of files, each of them once. -/
inductive Entry.Regular : Entry → Prop
  /-- a file -/
  | file (bytes : List UInt8) (modified : Int) : Regular (.file bytes modified)
  /-- a directory of such trees -/
  | directory {es : List (FileName × Entry)} (names : ∀ e ∈ es, IsFileName e.1)
    (nodup : (es.map Prod.fst).Nodup) (below : ∀ e ∈ es, e.2.Regular) : Regular (.directory es)

variable {top root e f : Entry} {es : List (FileName × Entry)} {n : FileName} {place there : Place}
variable {names below : List FileName} {found : List (List FileName)} {bytes : List UInt8}
variable {time : Int}

/-! ## What lies at a place -/

theorem at?_directory :
    (Entry.directory es).at? (n :: below) = (es.lookup n).bind (Entry.at? · below) := rfl

theorem at?_file :
    (Entry.file bytes time).at? below = some f ↔ below = [] ∧ f = .file bytes time := by
  cases below with
  | nil => exact ⟨fun h => ⟨rfl, (Option.some.inj h).symm⟩, fun h => h.2 ▸ rfl⟩
  | cons n below => exact iff_of_false (fun h => nomatch h) fun h => nomatch h.1

theorem at?_append : top.at? (place ++ below) = (top.at? place).bind (Entry.at? · below) :=
  List.foldlM_append

theorem mem_of_lookup (h : es.lookup n = some e) : (n, e) ∈ es := by
  obtain ⟨before, after, rfl, -⟩ := List.lookup_eq_some_iff.mp h
  exact List.mem_append_right before List.mem_cons_self

theorem lookup_of_mem (hes : (es.map Prod.fst).Nodup) (h : (n, e) ∈ es) : es.lookup n = some e := by
  obtain ⟨before, after, rfl⟩ := List.append_of_mem h
  refine List.lookup_eq_some_iff.mpr ⟨before, after, rfl, fun p hp => ?_⟩
  rw [List.map_append, List.map_cons] at hes
  have hne := List.disjoint_of_nodup_append hes (List.mem_map_of_mem hp)
  rw [bne_iff_ne]
  rintro rfl
  exact hne List.mem_cons_self

/-- What lies below a directory lies below one of its entries. -/
theorem at?_directory_iff (hes : (es.map Prod.fst).Nodup) :
    (Entry.directory es).at? (n :: below) = some f ↔ ∃ e, (n, e) ∈ es ∧ e.at? below = some f := by
  rw [at?_directory, Option.bind_eq_some_iff]
  exact exists_congr fun e => and_congr_left fun _ => ⟨mem_of_lookup, lookup_of_mem hes⟩

/-- So does a file in it. -/
theorem file_at?_directory_iff (hes : (es.map Prod.fst).Nodup) :
    (Entry.directory es).at? below = some (.file bytes time) ↔
      ∃ n e more, below = n :: more ∧ (n, e) ∈ es ∧ e.at? more = some (.file bytes time) := by
  cases below with
  | nil => exact iff_of_false (fun h => nomatch h) fun ⟨_, _, _, h, _⟩ => nomatch h
  | cons n below =>
    rw [at?_directory_iff hes]
    constructor
    · rintro ⟨e, he, hfile⟩
      exact ⟨n, e, below, rfl, he, hfile⟩
    · rintro ⟨_, e, _, ⟨⟩, he, hfile⟩
      exact ⟨e, he, hfile⟩

/-- The first entry of a regular directory, and the others. -/
theorem Entry.Regular.of_cons (h : (Entry.directory ((n, e) :: es)).Regular) :
    (((n, e) :: es).map Prod.fst).Nodup ∧ e.Regular ∧ (Entry.directory es).Regular := by
  cases h with
  | directory names nodup below =>
    refine ⟨nodup, below _ List.mem_cons_self, .directory ?_ (List.nodup_cons.mp nodup).2 ?_⟩
    · exact fun d hd => names d (List.mem_cons_of_mem _ hd)
    · exact fun d hd => below d (List.mem_cons_of_mem _ hd)

/-- All on the way to a place in a regular tree are names of files. -/
theorem Entry.Regular.names_of_at? (he : e.Regular) (h : e.at? below = some f) :
    ∀ n ∈ below, IsFileName n := by
  induction below generalizing e with
  | nil => exact fun _ hn => absurd hn List.not_mem_nil
  | cons n below ih =>
    cases he with
    | file bytes modified => cases h
    | directory names nodup hbelow =>
      obtain ⟨c, hc, hf⟩ := (at?_directory_iff nodup).mp h
      exact List.forall_mem_cons.mpr ⟨names _ hc, ih (hbelow _ hc) hf⟩

/-! ## Sizes -/

theorem size_le_sizes (h : (n, e) ∈ es) : e.size ≤ sizes es := by
  induction es with
  | nil => cases h
  | cons d es ih =>
    obtain ⟨m, d⟩ := d
    rw [sizes]
    rcases List.mem_cons.mp h with h | h
    · cases h
      exact Nat.le_add_right _ _
    · exact Nat.le_add_left_of_le (ih h)

theorem size_le_of_at? (h : top.at? place = some e) : e.size ≤ top.size := by
  induction place generalizing top with
  | nil => exact Option.some.inj h ▸ le_rfl
  | cons n place ih =>
    cases top with
    | file bytes time => cases h
    | link target => cases h
    | directory es =>
      rw [at?_directory] at h
      obtain ⟨c, hc, he⟩ := Option.bind_eq_some_iff.mp h
      rw [Entry.size]
      exact Nat.le_succ_of_le ((ih he).trans (size_le_sizes (mem_of_lookup hc)))

/-! ## Walks -/

/-- These are the files below an entry, each of them once, by the names that lead to the entry and
from there to the file. -/
structure Lists (found : List (List FileName)) (names : List FileName) (e : Entry) : Prop where
  /-- no file is there twice -/
  nodup : found.Nodup
  /-- the files below the entry are there, and nothing else -/
  mem_iff : ∀ ns, ns ∈ found ↔
    ∃ below bytes time, ns = names ++ below ∧ e.at? below = some (.file bytes time)

theorem lists_file : Lists [names] names (.file bytes time) where
  nodup := List.nodup_singleton _
  mem_iff ns := by
    simp only [List.mem_singleton, at?_file]
    constructor
    · rintro rfl
      exact ⟨[], bytes, time, (List.append_nil _).symm, rfl, rfl⟩
    · rintro ⟨_, _, _, rfl, rfl, -⟩
      exact List.append_nil _

/-- The files of a directory are those of its entries. -/
theorem Lists.mem_directory_iff (h : Lists found names (.directory es))
    (hes : (es.map Prod.fst).Nodup) (ns : List FileName) :
    ns ∈ found ↔ ∃ m c below bytes time, ns = names ++ m :: below ∧ (m, c) ∈ es ∧
      c.at? below = some (.file bytes time) := by
  rw [h.mem_iff]
  constructor
  · rintro ⟨below, bytes, time, rfl, hfile⟩
    obtain ⟨m, c, more, rfl, hc, hfile⟩ := (file_at?_directory_iff hes).mp hfile
    exact ⟨m, c, more, bytes, time, rfl, hc, hfile⟩
  · rintro ⟨m, c, below, bytes, time, rfl, hc, hfile⟩
    exact ⟨_, bytes, time, rfl, (file_at?_directory_iff hes).mpr ⟨m, c, below, rfl, hc, hfile⟩⟩

/-- The files of a directory are those of its first entry and those of the others. -/
theorem Lists.cons {first more : List (List FileName)} (hes : (((n, e) :: es).map Prod.fst).Nodup)
    (hfirst : Lists first (names ++ [n]) e) (hmore : Lists more names (.directory es)) :
    Lists (first ++ more) names (.directory ((n, e) :: es)) := by
  obtain ⟨hn, hrest⟩ := List.nodup_cons.mp hes
  have hmem := hmore.mem_directory_iff hrest
  refine ⟨List.nodup_append.mpr ⟨hfirst.nodup, hmore.nodup, ?_⟩, fun ns => ?_⟩
  · rintro ns hns _ hms rfl
    obtain ⟨below, bytes, time, rfl, -⟩ := (hfirst.mem_iff ns).mp hns
    obtain ⟨m, c, below', bytes', time', heq, hc, -⟩ := (hmem _).mp hms
    rw [List.append_assoc, List.append_cancel_left_eq] at heq
    obtain rfl := (List.cons.inj heq).1
    exact hn (List.mem_map.mpr ⟨_, hc, rfl⟩)
  · rw [List.mem_append, hfirst.mem_iff, hmem]
    simp only [file_at?_directory_iff hes, List.mem_cons]
    constructor
    · rintro (⟨below, bytes, time, rfl, hfile⟩ | ⟨m, c, below, bytes, time, rfl, hc, hfile⟩)
      · exact ⟨_, bytes, time, List.append_assoc _ _ _, n, e, below, rfl, Or.inl rfl, hfile⟩
      · exact ⟨_, bytes, time, rfl, m, c, below, rfl, Or.inr hc, hfile⟩
    · rintro ⟨_, bytes, time, rfl, m, c, below, rfl, h | hc, hfile⟩
      · cases h
        exact Or.inl ⟨below, bytes, time, (List.append_assoc names [n] below).symm, hfile⟩
      · exact Or.inr ⟨m, c, below, bytes, time, rfl, hc, hfile⟩

/-- What the entries of a directory lead to is listed if what each of them leads to is, one level
down. -/
theorem lists_walkEntries {followLinks : Bool} {depth : Nat} {open_ : List Place}
    (hes : (Entry.directory es).Regular)
    (hfrom : ∀ n es', (n, Entry.directory es') ∈ es → ∃ found,
      walkFrom top followLinks depth open_ (place ++ [n]) (names ++ [n]) = .ok found ∧
        Lists found (names ++ [n]) (.directory es')) :
    ∃ found, walkEntries top followLinks depth open_ place names es = .ok found ∧
      Lists found names (.directory es) := by
  induction es with
  | nil =>
    refine ⟨[], by rw [walkEntries], List.nodup_nil, fun ns => ?_⟩
    refine iff_of_false List.not_mem_nil ?_
    rintro ⟨below, bytes, time, -, hfile⟩
    have hnodup : (([] : List (FileName × Entry)).map Prod.fst).Nodup := List.nodup_nil
    obtain ⟨n, e, more, -, he, -⟩ := (file_at?_directory_iff hnodup).mp hfile
    cases he
  | cons d es ih =>
    obtain ⟨n, d⟩ := d
    obtain ⟨hnodup, hd, hrest⟩ := hes.of_cons
    obtain ⟨more, hwalk, hmore⟩ := ih hrest
      fun m es' hmem => hfrom m es' (List.mem_cons_of_mem _ hmem)
    cases d with
    | file bytes time =>
      refine ⟨_, ?_, Lists.cons hnodup lists_file hmore⟩
      rw [walkEntries, hwalk]
      rfl
    | directory es' =>
      obtain ⟨first, hfirst, hlists⟩ := hfrom n es' List.mem_cons_self
      refine ⟨_, ?_, Lists.cons hnodup hlists hmore⟩
      rw [walkEntries, hfirst, hwalk]
      rfl
    | link target => cases hd

/-- What lies at a place is listed, if the walk may go as deep as the tree is large. -/
theorem lists_walkFrom {followLinks : Bool} {depth : Nat} {open_ : List Place} (he : e.Regular)
    (hdepth : e.size ≤ depth) (hplace : top.at? place = some e) :
    ∃ found, walkFrom top followLinks depth open_ place names = .ok found ∧
      Lists found names e := by
  induction depth generalizing e open_ place names with
  | zero => cases e <;> simp [Entry.size] at hdepth
  | succ depth ih =>
    cases he with
    | file bytes time =>
      rw [walkFrom, hplace]
      exact ⟨_, rfl, lists_file⟩
    | @directory es hnames hnodup hbelow =>
      rw [walkFrom, hplace]
      refine lists_walkEntries (.directory hnames hnodup hbelow) fun n es' hmem => ?_
      have hsize := size_le_sizes hmem
      rw [Entry.size] at hdepth
      refine ih (hbelow _ hmem) (by omega) ?_
      rw [at?_append, hplace, Option.bind_some, at?_directory, lookup_of_mem hnodup hmem]
      rfl

/-- **A walk lists the files of a regular tree,** links or no links. -/
theorem lists_walk (followLinks : Bool) {disk : Disk} {p : Path}
    (hresolve : resolve disk p = .ok place) (hplace : disk.top.at? place = some (.directory es))
    (hes : (Entry.directory es).Regular) :
    ∃ found, walk disk followLinks p = .ok found ∧ Lists found [] (.directory es) := by
  have hdepth : (Entry.directory es).size ≤ disk.top.walkDepth :=
    (size_le_of_at? hplace).trans ((Nat.le_succ _).trans (Nat.le_mul_self _))
  have hwalk : walk disk followLinks p =
      walkFrom disk.top followLinks disk.top.walkDepth [] place [] := by
    rw [walk, hresolve]
    simp only [hplace]
  rw [hwalk]
  exact lists_walkFrom hes hdepth hplace

/-! ## Paths -/

/-- Where one is on the way: the links that may still be followed, the place, and the segments that
a link has put in front. -/
structure Way where
  /-- links that may still be followed -/
  links : Nat
  /-- the place -/
  place : Place
  /-- segments to go before the others -/
  ahead : List FileName

/-- Where one segment leads to from a place. -/
def pass (top : Entry) (links : Nat) (place : Place) (s : FileName) : Except FileError Way :=
  match top.at? place with
  | some (.directory es) =>
    if s = [] ∨ s = Path.here then .ok ⟨links, place, []⟩
    else if s = Path.parent then .ok ⟨links, place.dropLast, []⟩
    else if maxNameBytes < s.length then .error .nameTooLong
    else match es.lookup s with
      | none => .error .notFound
      | some (.link target) => match links with
        | 0 => .error .linkLoop
        | links + 1 => .ok ⟨links, startOf place target, Path.segments target⟩
      | some _ => .ok ⟨links, place ++ [s], []⟩
  | some _ => .error .notDirectory
  | none => .error .notFound

section Follow

variable {links fuel : Nat} {s : FileName} {segs rest tail : List FileName}

/-- Segments are passed one by one. -/
theorem follow_cons : follow top false links (fuel + 1) place (s :: rest) =
    (pass top links place s).bind fun w =>
      follow top false w.links fuel w.place (w.ahead ++ rest) := by
  rw [follow, pass]
  rcases top.at? place with _ | _ | es | _
  · rfl
  · rfl
  · simp only [Bool.false_eq_true, false_and, if_false]
    split_ifs
    · rfl
    · rfl
    · rfl
    · rcases es.lookup s with _ | _ | _ | target
      · rfl
      · rfl
      · rfl
      · cases links <;> rfl
  · rfl

theorem follow_nil : follow top false links (fuel + 1) place [] = .ok place := by
  rw [follow]
  exact Nat.succ_ne_zero fuel

/-- An empty segment leads nowhere else. -/
theorem pass_empty {w : Way} (h : pass top links place [] = .ok w) : w = ⟨links, place, []⟩ := by
  rw [pass] at h
  split at h
  · exact (Except.ok.inj h).symm
  · cases h
  · cases h

/-- The name of a file or a directory leads to it. -/
theorem pass_name (hn : IsFileName n) (hplace : top.at? place = some (.directory es))
    (he : es.lookup n = some e) (hlink : ∀ target, e ≠ .link target) :
    pass top links place n = .ok ⟨links, place ++ [n], []⟩ := by
  have hcounts : ¬ (n = [] ∨ n = Path.here) := not_or.mpr ⟨hn.ne_nil, hn.ne_here⟩
  rw [pass, hplace]
  simp only [if_neg hcounts, if_neg hn.ne_parent, if_neg (Nat.not_lt.mpr hn.short), he]

/-- **A path is followed up to its place, and from there what stands behind it.** An empty segment
at its end does not count then. -/
theorem follow_append (htail : tail = [] ∨ tail = [[]])
    (h : follow top false links fuel place (segs ++ tail) = .ok there) (more : List FileName)
    (k : Nat) : ∃ links' fuel', follow top false links (fuel + k) place (segs ++ more) =
      follow top false links' (fuel' + 1 + tail.length + k) there more := by
  -- the induction is on the steps that are left, with whatever links have put in front
  induction fuel generalizing links place segs with
  | zero =>
    rw [follow] at h
    cases h
  | succ fuel ih =>
    cases segs with
    | nil =>
      rcases htail with rfl | rfl
      · rw [List.nil_append, follow_nil] at h
        cases h
        exact ⟨links, fuel, rfl⟩
      · rw [List.nil_append, follow_cons] at h
        cases hpass : pass top links place [] with
        | error e =>
          rw [hpass] at h
          cases h
        | ok w =>
          obtain rfl := pass_empty hpass
          rw [hpass, Except.bind, List.append_nil] at h
          cases fuel with
          | zero =>
            rw [follow] at h
            cases h
          | succ fuel =>
            rw [follow_nil] at h
            cases h
            exact ⟨links, fuel, rfl⟩
    | cons s segs =>
      rw [List.cons_append, follow_cons] at h
      rw [Nat.add_right_comm, List.cons_append, follow_cons]
      cases hpass : pass top links place s with
      | error e =>
        rw [hpass] at h
        cases h
      | ok w =>
        rw [hpass, Except.bind, ← List.append_assoc] at h
        rw [Except.bind, ← List.append_assoc]
        exact ih h

/-- From a place names lead on to a file. -/
theorem follow_names (hnames : ∀ n ∈ names, IsFileName n)
    (hfile : top.at? (place ++ names) = some (.file bytes time)) :
    follow top false links (fuel + 1 + names.length) place names = .ok (place ++ names) := by
  induction names generalizing place with
  | nil => rw [List.length_nil, Nat.add_zero, follow_nil, List.append_nil]
  | cons n names ih =>
    obtain ⟨hn, hnames⟩ := List.forall_mem_cons.mp hnames
    have hbelow := hfile
    rw [at?_append] at hbelow
    obtain ⟨d, hd, hbelow⟩ := Option.bind_eq_some_iff.mp hbelow
    cases d with
    | file bytes time => cases hbelow
    | link target => cases hbelow
    | directory es =>
      rw [at?_directory] at hbelow
      obtain ⟨e, he, hbelow⟩ := Option.bind_eq_some_iff.mp hbelow
      have hlink : ∀ target, e ≠ .link target := by
        rintro target rfl
        cases names <;> cases hbelow
      rw [List.append_cons] at hfile ⊢
      rw [List.length_cons, ← Nat.add_assoc, follow_cons, pass_name hn hd he hlink, Except.bind,
        List.nil_append]
      exact ih hnames hfile

end Follow

end Files

namespace Path

/-- A path that can be followed. -/
structure Followed (p : Path) : Prop where
  /-- it is not empty -/
  ne_nil : p ≠ []
  /-- the byte that ends names is not in it -/
  no_nul : 0 ∉ p

variable {p : Path} {n : FileName} {names : List FileName}

theorem Followed.join (hp : Followed p) (hn : IsFileName n) : Followed (join p n) := by
  obtain ⟨front, sep, rfl, -, hjoin⟩ := join_eq hp.ne_nil n
  refine ⟨join_ne_nil hp.ne_nil n, ?_⟩
  rw [hjoin, List.mem_append, List.mem_cons]
  rintro (h | h | h)
  · exact hp.no_nul (List.mem_append_left sep h)
  · exact absurd h (by decide)
  · exact hn.no_nul h

/-- A path starts where it did when a name is put behind it. -/
theorem isAbsolute_join (hp : p ≠ []) (n : FileName) :
    isAbsolute (join p n) = isAbsolute p := by
  obtain ⟨front, sep, rfl, hsep, hjoin⟩ := join_eq hp n
  rw [hjoin]
  cases front with
  | nil =>
    rcases hsep with rfl | rfl
    · exact absurd rfl hp
    · rfl
  | cons b front => rfl

variable (hp : Followed p) (hnames : ∀ n ∈ names, IsFileName n)
include hp hnames

theorem Followed.foldl_join : Followed (names.foldl Path.join p) := by
  induction names generalizing p with
  | nil => exact hp
  | cons n names ih =>
    obtain ⟨hn, hnames⟩ := List.forall_mem_cons.mp hnames
    exact ih (hp.join hn) hnames

theorem isAbsolute_foldl_join : isAbsolute (names.foldl Path.join p) = isAbsolute p := by
  induction names generalizing p with
  | nil => rfl
  | cons n names ih =>
    obtain ⟨hn, hnames⟩ := List.forall_mem_cons.mp hnames
    rw [List.foldl_cons, ih (hp.join hn) hnames, isAbsolute_join hp.ne_nil]

/-- Names behind a path are its last segments. -/
theorem segments_foldl_join (hn : IsFileName n) :
    ∃ ss tail, segments p = ss ++ tail ∧ (tail = [] ∨ tail = [[]]) ∧
      segments ((n :: names).foldl Path.join p) = ss ++ n :: names := by
  induction names generalizing p n with
  | nil =>
    obtain ⟨ss, tail, -, h⟩ := segments_join hn.toIsName hp.ne_nil
    exact ⟨ss, tail, h⟩
  | cons m names ih =>
    obtain ⟨hm, hnames⟩ := List.forall_mem_cons.mp hnames
    obtain ⟨ss, tail, -, hss, htail, hjoin⟩ := segments_join hn.toIsName hp.ne_nil
    obtain ⟨ss', tail', hss', htail', hall⟩ := ih (hp.join hn) hnames hm
    refine ⟨ss, tail, hss, htail, ?_⟩
    rcases htail' with rfl | rfl
    · rw [List.append_nil] at hss'
      rw [List.foldl_cons, hall, ← hss', hjoin, List.append_assoc]
      rfl
    · -- the last segment is a name, and so it is not empty
      have hempty := (List.append_inj' (hjoin.symm.trans hss') rfl).2
      exact absurd (List.cons.inj hempty).1 hn.ne_nil

end Path

namespace Files

variable {disk : Disk} {e : Entry} {p : Path} {place : Place}
variable {sc : Scanner} {names : List FileName} {bytes : List UInt8} {time : Int}

theorem stepsFor_add (m k : Nat) : stepsFor (m + k) = stepsFor m + k := by
  unfold stepsFor
  generalize maxLinks * 4096 = c
  omega

/-- A path leads to a place if it is followed there. -/
theorem resolve_eq_ok_iff : resolve disk p = .ok place ↔
    Path.Followed p ∧ follow disk.top false maxLinks (stepsFor (Path.segments p).length)
      (startOf disk.workplace p) (Path.segments p) = .ok place := by
  have hnul : p.contains 0 = true ↔ 0 ∈ p := List.contains_iff_mem
  rw [resolve, resolveWith]
  constructor
  · intro h
    split_ifs at h with hmem hempty
    exact ⟨⟨hempty, fun hzero => hmem (hnul.mpr hzero)⟩, h⟩
  · rintro ⟨hp, h⟩
    rw [if_neg fun hmem => hp.no_nul (hnul.mp hmem), if_neg hp.ne_nil]
    exact h

/-- **The path of a file leads to it.** -/
theorem resolve_pathOf (hroot : resolve disk sc.root = .ok place)
    (hplace : disk.top.at? place = some e) (he : e.Regular)
    (hfile : e.at? names = some (.file bytes time)) :
    resolve disk (sc.pathOf names) = .ok (place ++ names) := by
  have hnames := he.names_of_at? hfile
  obtain ⟨hp, hfollow⟩ := resolve_eq_ok_iff.mp hroot
  cases names with
  | nil =>
    rw [List.append_nil]
    exact hroot
  | cons n names =>
    obtain ⟨hn, hrest⟩ := List.forall_mem_cons.mp hnames
    obtain ⟨ss, tail, hss, htail, hall⟩ := Path.segments_foldl_join hp hrest hn
    have hone : tail.length ≤ 1 := by
      rcases htail with rfl | rfl <;> simp
    have hstart : startOf disk.workplace (sc.pathOf (n :: names)) =
        startOf disk.workplace sc.root := by
      rw [startOf, Scanner.pathOf, Path.isAbsolute_foldl_join hp hnames, startOf]
    refine resolve_eq_ok_iff.mpr ⟨hp.foldl_join hnames, ?_⟩
    rw [hss] at hfollow
    -- an empty segment at the end of the root makes room for a name
    obtain ⟨links, fuel, heq⟩ := follow_append htail hfollow (n :: names)
      ((n :: names).length - tail.length)
    have hsteps : stepsFor (ss ++ n :: names).length =
        stepsFor (ss ++ tail).length + ((n :: names).length - tail.length) := by
      rw [← stepsFor_add]
      simp only [List.length_append, List.length_cons]
      congr 1
      omega
    have hfuel : fuel + 1 + tail.length + ((n :: names).length - tail.length) =
        fuel + 1 + (n :: names).length := by
      simp only [List.length_cons]
      omega
    have hthere : disk.top.at? (place ++ n :: names) = some (.file bytes time) := by
      rw [at?_append, hplace, Option.bind_some]
      exact hfile
    rw [hstart, Scanner.pathOf, hall, hsteps, heq, hfuel]
    exact follow_names hnames hthere

/-- The time of a file is found under its path. -/
theorem modified?_pathOf (hroot : resolve disk sc.root = .ok place)
    (hplace : disk.top.at? place = some e) (he : e.Regular)
    (hfile : e.at? names = some (.file bytes time)) :
    modified? disk (sc.pathOf names) = some time := by
  rw [modified?, resolve_pathOf hroot hplace he hfile]
  simp only [at?_append, hplace, Option.bind_some, hfile]

end Files

end MarkdownIndex
