import MarkdownIndex.Proofs.Files.Regular

/-!
# Flat directories: what a scan finds where there are files only

When the working directory has nothing but files, then a scan that starts from it finds those whose
names count, and nothing can go wrong.

* `resolve_dot` — the working directory is found under the name of a single dot.
* `walk_dot` — a walk through it lists its entries.
* `scan_dot` — what a scan finds there.
* `plain_flatDisk` — the names that there are are names.
-/

namespace MarkdownIndex

open Files

variable {es : List (FileName × Entry)}

namespace Files

/-- An entry is a file. -/
def Entry.IsFile : Entry → Prop
  | .file _ _ => True
  | _ => False

/-- A disk with a directory as its top, where paths start. -/
def flatDisk (es : List (FileName × Entry)) : Disk := ⟨.directory es, []⟩

theorem follow_dot (keepLast : Bool) (links n : Nat) :
    follow (.directory es) keepLast links (n + 2) [] [Path.here] = .ok [] := by
  have htop : (Entry.directory es).at? [] = some (.directory es) := rfl
  rw [follow, htop]
  simp only [or_true, if_true]
  rw [follow]
  exact Nat.succ_ne_zero n

theorem resolveWith_dot (keepLast : Bool) :
    resolveWith (flatDisk es) keepLast Path.here = .ok [] := by
  have hnul : Path.here.contains 0 = false := rfl
  have hne : Path.here ≠ [] := List.cons_ne_nil _ _
  rw [resolveWith, hnul, if_neg Bool.false_ne_true, if_neg hne]
  exact follow_dot keepLast maxLinks (maxLinks * 4096)

/-- The working directory is found under the name of a single dot. -/
theorem resolve_dot : resolve (flatDisk es) Path.here = .ok [] := resolveWith_dot false

theorem exists?_dot : exists? (flatDisk es) Path.here = true := by
  rw [exists?, resolve_dot]
  rfl

theorem isLink_dot : isLink (flatDisk es) Path.here = false := by
  rw [isLink, resolveWith_dot]
  rfl

/-- Files that are walked through are listed, whatever is around them. -/
theorem walkEntries_of_files {top : Entry} {followLinks : Bool} {depth : Nat} {open_ : List Place}
    {place : Place} {names : List FileName} (hes : ∀ e ∈ es, e.2.IsFile) :
    walkEntries top followLinks depth open_ place names es =
      .ok (es.map fun e => names ++ [e.1]) := by
  induction es with
  | nil =>
    rw [walkEntries]
    rfl
  | cons e es ih =>
    obtain ⟨n, entry⟩ := e
    have hentry : entry.IsFile := hes (n, entry) List.mem_cons_self
    cases entry with
    | file bytes time =>
      rw [walkEntries, ih fun e he => hes e (List.mem_cons_of_mem _ he)]
      rfl
    | directory => exact hentry.elim
    | link => exact hentry.elim

/-- A walk through a working directory of files lists them. -/
theorem walk_dot (followLinks : Bool) (hes : ∀ e ∈ es, e.2.IsFile) :
    walk (flatDisk es) followLinks Path.here = .ok (es.map fun e => [e.1]) := by
  have htop : (Entry.directory es).at? [] = some (.directory es) := rfl
  obtain ⟨n, hdepth⟩ : ∃ n, (Entry.directory es).walkDepth = n + 1 :=
    Nat.exists_eq_add_one.mpr (Nat.mul_pos (Nat.succ_pos _) (Nat.succ_pos _))
  rw [walk, resolve_dot, isLink_dot]
  simp only [flatDisk, htop, hdepth]
  rw [walkFrom, htop]
  exact walkEntries_of_files hes

end Files

/-- **What a scan finds in a working directory of files:** those whose names count. -/
theorem Scanner.scan_dot {s : Scanner} (hroot : s.root = Path.here) (hes : ∀ e ∈ es, e.2.IsFile) :
    s.scan (flatDisk es) = .ok ((((es.map fun e => [e.1]).filter fun names =>
      s.admits (Scanner.relative names)).map s.pathOf).mergeSort Path.le) := by
  rw [Scanner.scan, hroot, exists?_dot, walk_dot _ hes]
  rfl

/-- There is no other directory, so the names of the files are all that there are. -/
theorem plain_flatDisk (hes : ∀ e ∈ es, IsName e.1 ∧ e.2.IsFile) : Plain (flatDisk es) := by
  intro place ds hds
  rcases place with _ | ⟨n, place⟩
  · cases hds
    exact fun e he => (hes e he).1
  · obtain ⟨d, hd, hrest⟩ := Option.bind_eq_some_iff.mp hds
    have hfile : d.IsFile := (hes (n, d) (Files.mem_of_lookup hd)).2
    rcases place with _ | ⟨m, place⟩
    · cases hrest
      exact hfile.elim
    · cases d with
      | file => cases hrest
      | _ => exact hfile.elim

end MarkdownIndex
