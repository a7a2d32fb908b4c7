import MarkdownIndex.Proofs.Files.Order
import MarkdownIndex.Proofs.Files.Regular
import MarkdownIndex.Proofs.Glob.Beneath

/-!
# Scans: exactly the files that are admitted

A scan of a directory without links lists the files below it that one of the include patterns has
and none of the exclude patterns, in the order of their paths. What a pattern is asked about is the
path relative to the root, so that names above the root do not matter.

* `Matches`, `Globs.has_iff` — one of some patterns has a path.
* `ignored`, `matches_alwaysExcluded` — what is always excluded are the files below a directory of
  one of three names, at any depth.
* `exists_ofConfig`, `scan_eq`, `mem_sorted_iff`, `exists_snapshot` — the scanner of a
  configuration, what it makes of a walk, and what a snapshot makes of a scan.
* `scan_admissible` — **a scan lists exactly the files that are admitted,** and a snapshot has an
  entry for just these.
-/

namespace MarkdownIndex

open Files

/-! ## Patterns -/

/-- One of some patterns has a path. -/
def Matches (patterns : List String) (path : String) : Prop :=
  ∃ pattern ∈ patterns, ∃ g, Glob.compile pattern = .ok g ∧ g.has path = true

/-- Patterns that can be compiled. -/
def Compiles (patterns : List String) : Prop :=
  ∀ pattern ∈ patterns, ∃ g, Glob.compile pattern = .ok g

variable {patterns more : List String} {path : String} {names : List FileName}

theorem matches_append :
    Matches (patterns ++ more) path ↔ Matches patterns path ∨ Matches more path := by
  simp only [Matches, List.mem_append, or_and_right, exists_or]

theorem Compiles.append (h : Compiles patterns) (h' : Compiles more) :
    Compiles (patterns ++ more) :=
  List.forall_mem_append.mpr ⟨h, h'⟩

/-- Patterns that can be compiled have what one of them has. -/
theorem Globs.has_iff (h : Compiles patterns) :
    ∃ gs, Globs.compile patterns = .ok gs ∧
      ∀ path, gs.has path = true ↔ Matches patterns path := by
  induction patterns with
  | nil => exact ⟨[], rfl, fun path => by simp [Globs.has, Matches]⟩
  | cons pattern patterns ih =>
    obtain ⟨⟨g, hg⟩, hrest⟩ := List.forall_mem_cons.mp h
    obtain ⟨gs, hgs, hhas⟩ := ih hrest
    refine ⟨g :: gs, ?_, fun path => ?_⟩
    · rw [Globs.compile, List.mapM_cons, hg]
      rw [Globs.compile] at hgs
      rw [hgs]
      rfl
    · have hfirst : (∃ g', Glob.compile pattern = .ok g' ∧ g'.has path = true) ↔
          g.has path = true := by
        rw [hg]
        exact ⟨fun ⟨g', h, hhas⟩ => Except.ok.inj h ▸ hhas, fun hhas => ⟨g, rfl, hhas⟩⟩
      rw [Globs.has, List.any_cons, Bool.or_eq_true, Matches, List.exists_mem_cons_iff, hfirst]
      exact or_congr_right (hhas path)

/-! ## What is always excluded -/

/-- The names of directories whose files never count. -/
def ignored : List String := [".git", "target", "node_modules"]

theorem plain_ignored : ∀ name ∈ ignored, '/' ∉ name.toList ∧ '\uFFFD' ∉ name.toList := by decide

theorem alwaysExcluded_eq : alwaysExcluded = ignored.map fun name => "**/" ++ name ++ "/**" := by
  decide

theorem compile_ignored :
    ∀ name ∈ ignored, Glob.compile ("**/" ++ name ++ "/**") = .ok ⟨Glob.beneath name⟩ := by
  simp only [ignored, List.forall_mem_cons]
  exact ⟨rfl, rfl, rfl, fun _ h => absurd h List.not_mem_nil⟩

theorem compiles_alwaysExcluded : Compiles alwaysExcluded := by
  rw [alwaysExcluded_eq]
  intro pattern h
  obtain ⟨name, hname, rfl⟩ := List.mem_map.mp h
  exact ⟨_, compile_ignored name hname⟩

/-- **What is always excluded are the files below a directory of one of these names,** at any depth.
-/
theorem matches_alwaysExcluded (hnames : ∀ n ∈ names, IsName n) :
    Matches alwaysExcluded (Scanner.relative names) ↔
      ∃ name ∈ ignored, Path.ofText name ∈ names.dropLast := by
  rw [alwaysExcluded_eq, Matches]
  constructor
  · rintro ⟨_, hpattern, g, hg, hhas⟩
    obtain ⟨name, hname, rfl⟩ := List.mem_map.mp hpattern
    rw [compile_ignored name hname] at hg
    obtain rfl := Except.ok.inj hg
    obtain ⟨hslash, hplain⟩ := plain_ignored name hname
    exact ⟨name, hname, (Glob.has_beneath hslash hplain hnames).mp hhas⟩
  · rintro ⟨name, hname, hmem⟩
    obtain ⟨hslash, hplain⟩ := plain_ignored name hname
    exact ⟨_, List.mem_map_of_mem hname, _, compile_ignored name hname,
      (Glob.has_beneath hslash hplain hnames).mpr hmem⟩

namespace Scanner

variable {sc : Scanner} {c : Config.Docs} {disk : Disk} {place : Place}
variable {es : List (FileName × Entry)} {found : List (List FileName)}

/-! ## The parts of a scan -/

/-- The scanner of a configuration admits what its patterns say. -/
theorem exists_ofConfig (hinclude : Compiles c.includeGlobs) (hexclude : Compiles c.excludeGlobs) :
    ∃ sc, ofConfig c = .ok sc ∧ sc.root = Path.ofText c.root ∧ ∀ path, sc.admits path = true ↔
      Matches c.includeGlobs path ∧ ¬ Matches (alwaysExcluded ++ c.excludeGlobs) path := by
  obtain ⟨included, hincluded, hin⟩ := Globs.has_iff hinclude
  obtain ⟨excluded, hexcluded, hout⟩ := Globs.has_iff (compiles_alwaysExcluded.append hexclude)
  refine ⟨⟨Path.ofText c.root, included, excluded, c.followSymlinks⟩, ?_, rfl, fun path => ?_⟩
  · rw [ofConfig, hincluded, hexcluded]
    rfl
  · rw [admits, Bool.and_eq_true, Bool.not_eq_true', ← Bool.not_eq_true, hin, hout, and_comm]

/-- What a scan makes of a walk. -/
theorem scan_eq (hroot : resolve disk sc.root = .ok place)
    (hwalk : walk disk sc.followLinks sc.root = .ok found) :
    sc.scan disk = .ok (((found.filter fun names => sc.admits (relative names)).map
      sc.pathOf).mergeSort Path.le) := by
  have hexists : exists? disk sc.root = true := by
    rw [exists?, hroot]
    rfl
  rw [scan, if_pos hexists, hwalk]

/-- The paths of a scan are those of the files that are admitted. -/
theorem mem_sorted_iff (sc : Scanner) {e : Entry} (h : Lists found [] e) (p : Path) :
    p ∈ ((found.filter fun names => sc.admits (relative names)).map sc.pathOf).mergeSort Path.le ↔
      ∃ names bytes time, p = sc.pathOf names ∧ e.at? names = some (.file bytes time) ∧
        sc.admits (relative names) = true := by
  rw [List.mem_mergeSort, List.mem_map]
  simp only [List.mem_filter, h.mem_iff, List.nil_append]
  constructor
  · rintro ⟨names, ⟨⟨_, bytes, time, rfl, hfile⟩, hadmitted⟩, rfl⟩
    exact ⟨names, bytes, time, rfl, hfile, hadmitted⟩
  · rintro ⟨names, bytes, time, rfl, hfile, hadmitted⟩
    exact ⟨names, ⟨⟨names, bytes, time, rfl, hfile⟩, hadmitted⟩, rfl⟩

/-- Different files have different paths. -/
theorem distinct_pathOf (hfound : found.Nodup) (hnames : ∀ ns ∈ found, ∀ n ∈ ns, IsName n) :
    Path.Distinct (found.map sc.pathOf) := by
  rw [Path.Distinct, List.pairwise_map]
  refine hfound.imp_of_mem fun {ns ms} hns hms hne => ?_
  exact Bool.eq_false_iff.mpr fun h => hne (eq_of_same_pathOf (hnames ns hns) (hnames ms hms) h)

/-- A snapshot has an entry for just the files of a scan, if all of them have a time. -/
theorem exists_snapshot {paths : List Path} (hscan : sc.scan disk = .ok paths)
    (htime : ∀ p ∈ paths, ∃ t, modified? disk p = some t) :
    ∃ found, sc.snapshot disk = .ok found ∧ found.map Prod.fst = paths := by
  refine ⟨paths.filterMap fun p => (modified? disk p).map (p, ·), ?_, ?_⟩
  · rw [snapshot, hscan]
    rfl
  · rw [List.map_filterMap]
    have hsome : ∀ p ∈ paths, ((modified? disk p).map (p, ·)).map Prod.fst = some p := by
      intro p hp
      obtain ⟨t, ht⟩ := htime p hp
      rw [ht]
      rfl
    rw [List.filterMap_congr hsome, List.filterMap_some]

/-! ## The whole scan -/

/-- **A scan lists exactly the files that are admitted:** those below the root whose path relative
to it one of the include patterns has and none of the exclude patterns, in the order of their paths,
each of them once. What is excluded, whatever is included, are the files below a directory of one of
three names, between the root and the file, and those that the configuration excludes. And a
snapshot has an entry for just the files of the scan. -/
theorem scan_admissible (hinclude : Compiles c.includeGlobs) (hexclude : Compiles c.excludeGlobs)
    (hroot : resolve disk (Path.ofText c.root) = .ok place)
    (hplace : disk.top.at? place = some (.directory es)) (hes : (Entry.directory es).Regular) :
    ∃ sc paths found, ofConfig c = .ok sc ∧ sc.root = Path.ofText c.root ∧
      sc.scan disk = .ok paths ∧ sc.snapshot disk = .ok found ∧ Path.Increasing paths ∧
      (∀ p, p ∈ paths ↔ ∃ names bytes time, p = sc.pathOf names ∧
        (Entry.directory es).at? names = some (.file bytes time) ∧
          Matches c.includeGlobs (relative names) ∧
            ¬ Matches (alwaysExcluded ++ c.excludeGlobs) (relative names)) ∧
      (∀ names bytes time, (Entry.directory es).at? names = some (.file bytes time) →
        (Matches (alwaysExcluded ++ c.excludeGlobs) (relative names) ↔
          (∃ name ∈ [".git", "target", "node_modules"], Path.ofText name ∈ names.dropLast) ∨
            Matches c.excludeGlobs (relative names))) ∧
      found.map Prod.fst = paths := by
  obtain ⟨sc, hsc, hscroot, hadmits⟩ := exists_ofConfig hinclude hexclude
  rw [← hscroot] at hroot
  obtain ⟨all, hwalk, hlists⟩ := lists_walk sc.followLinks hroot hplace hes
  have hnames : ∀ names bytes time, (Entry.directory es).at? names = some (.file bytes time) →
      ∀ n ∈ names, IsName n := fun names bytes time hfile n hn =>
    (hes.names_of_at? hfile n hn).toIsName
  have hmem := mem_sorted_iff sc hlists
  have hdistinct : Path.Distinct ((all.filter fun names => sc.admits (relative names)).map
      sc.pathOf) := by
    refine distinct_pathOf (hlists.nodup.filter _) fun ns hns => ?_
    obtain ⟨_, bytes, time, rfl, hfile⟩ := (hlists.mem_iff ns).mp (List.mem_filter.mp hns).1
    exact hnames _ bytes time hfile
  have hscan := scan_eq hroot hwalk
  obtain ⟨found, hfound, hfst⟩ := exists_snapshot hscan fun p hp => by
    obtain ⟨names, bytes, time, rfl, hfile, -⟩ := (hmem p).mp hp
    exact ⟨time, modified?_pathOf hroot hplace hes hfile⟩
  simp only [hadmits] at hmem
  refine ⟨sc, _, found, hsc, hscroot, hscan, hfound, Path.increasing_mergeSort_le hdistinct, hmem,
    fun names bytes time hfile => ?_, hfst⟩
  exact matches_append.trans
    (or_congr_left (matches_alwaysExcluded (hnames names bytes time hfile)))

/-- Documents below a directory whose name is ignored, with a directory whose name is. -/
def targetDocs : Entry :=
  .directory [(Path.ofText ".git", .directory [(Path.ofText "a.md", .file [] 1)]),
    (Path.ofText "my.git", .directory [(Path.ofText "b.md", .file [] 2)]),
    (Path.ofText "c.md", .file [] 3), (Path.ofText "d.txt", .file [] 4)]

/-- The same on a disk where the work is done somewhere else. -/
def targetDisk : Disk where
  top := .directory [(Path.ofText "srv", .directory [(Path.ofText "target", .directory
    [(Path.ofText "docs", targetDocs)])]), (Path.ofText "work", .directory [])]
  workplace := [Path.ofText "work"]

theorem regular_targetDocs : targetDocs.Regular := by
  have hone : ∀ name time, IsFileName name →
      (Entry.directory [(name, .file [] time)]).Regular := fun name time hname =>
    .directory (List.forall_mem_singleton.mpr hname) (List.nodup_singleton _)
      (List.forall_mem_singleton.mpr (.file [] time))
  refine .directory (by decide) (by decide) ?_
  simp only [List.forall_mem_cons]
  exact ⟨hone (Path.ofText "a.md") 1 (by decide), hone (Path.ofText "b.md") 2 (by decide),
    .file [] 3, .file [] 4, fun _ h => absurd h List.not_mem_nil⟩

theorem scan_admissible_targetDisk : ∃ sc paths found,
    ofConfig { root := "/srv/target/docs" } = .ok sc ∧ sc.scan targetDisk = .ok paths ∧
      sc.snapshot targetDisk = .ok found ∧ found.map Prod.fst = paths ∧
      Path.ofText "/srv/target/docs/my.git/b.md" ∈ paths ∧
        Path.ofText "/srv/target/docs/.git/a.md" ∉ paths := by
  have hinclude : Compiles ["**/*.md"] := List.forall_mem_singleton.mpr ⟨_, rfl⟩
  have hexclude : Compiles [] := fun _ h => absurd h List.not_mem_nil
  have hroot : resolve targetDisk (Path.ofText "/srv/target/docs") =
      .ok [Path.ofText "srv", Path.ofText "target", Path.ofText "docs"] := by decide +kernel
  obtain ⟨sc, paths, found, hsc, hscroot, hscan, hsnapshot, -, hmem, hout, hfst⟩ :=
    scan_admissible (c := { root := "/srv/target/docs" }) hinclude hexclude hroot rfl
      regular_targetDocs
  refine ⟨sc, paths, found, hsc, hscan, hsnapshot, hfst, (hmem _).mpr ?_, fun hgit => ?_⟩
  · refine ⟨[Path.ofText "my.git", Path.ofText "b.md"], [], 2, ?_, rfl,
      ⟨_, List.mem_singleton_self _, _, rfl, ?_⟩, ?_⟩
    · rw [pathOf, hscroot]
      decide +kernel
    · decide +kernel
    · rw [hout [Path.ofText "my.git", Path.ofText "b.md"] [] 2 rfl, not_or]
      exact ⟨by decide, fun ⟨_, h, _⟩ => absurd h List.not_mem_nil⟩
  · have hpath : sc.pathOf [Path.ofText ".git", Path.ofText "a.md"] =
        Path.ofText "/srv/target/docs/.git/a.md" := by
      rw [pathOf, hscroot]
      decide +kernel
    obtain ⟨names, bytes, time, hp, hfile, -, hnone⟩ := (hmem _).mp hgit
    have hnames := regular_targetDocs.names_of_at? hfile
    have hsame : Path.same (sc.pathOf [Path.ofText ".git", Path.ofText "a.md"])
        (sc.pathOf names) = true := by
      rw [hpath, hp, Path.same, beq_self_eq_true]
    obtain rfl := eq_of_same_pathOf (by decide) (fun n hn => (hnames n hn).toIsName) hsame
    exact hnone ((hout _ _ _ hfile).mpr (Or.inl (by decide)))

end Scanner

end MarkdownIndex
