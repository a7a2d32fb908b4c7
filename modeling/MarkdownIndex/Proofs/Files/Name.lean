import MarkdownIndex.Proofs.Text.Token
import MarkdownIndex.Scan

/-!
# Names: the spellings of the files that a scan finds

Paths can be spelled in many ways, and a snapshot knows a file under any of them. But the files of a
scan are spelled in one way each, since a scan puts names behind its root, and names are not just
any bytes.

* `IsName` — bytes that can be a name in a directory; `Plain` — a disk with names like that.
* `segments_join`, `components_join`, `components_pathOf` — names behind a path are its last
  segments and components.
* `eq_of_same_pathOf` — no other names lead to the same path.
* `Spells` — a path that a scanner may come upon; `Spells.eq_of_same` — it is the only spelling.
* `isName_of_walk` — what leads to the files of a walk are names.
-/

namespace MarkdownIndex

open Text Files

/-- Bytes that a directory can have as a name. -/
structure IsName (n : FileName) : Prop where
  /-- a name is not empty -/
  ne_nil : n ≠ []
  /-- it is not the directory itself -/
  ne_here : n ≠ Path.here
  /-- it is not the directory above -/
  ne_parent : n ≠ Path.parent
  /-- it has no slash -/
  no_slash : Path.slash ∉ n

instance (n : FileName) : Decidable (IsName n) :=
  decidable_of_iff (n ≠ [] ∧ n ≠ Path.here ∧ n ≠ Path.parent ∧ Path.slash ∉ n)
    ⟨fun ⟨hnil, hhere, hparent, hslash⟩ => ⟨hnil, hhere, hparent, hslash⟩,
      fun h => ⟨h.ne_nil, h.ne_here, h.ne_parent, h.no_slash⟩⟩

/-- The directories of a disk have names. -/
def Plain (disk : Disk) : Prop :=
  ∀ {place : Place} {es : List (FileName × Entry)}, disk.top.at? place = some (.directory es) →
    ∀ e ∈ es, IsName e.1

namespace Path

variable {p : Path} {n s : FileName} {ss : List FileName}

theorem component?_of_isName (hn : IsName n) : component? n = some (.name n) := by
  have hcounts : ¬ (n = [] ∨ n = here) := not_or.mpr ⟨hn.ne_nil, hn.ne_here⟩
  rw [component?, if_neg hcounts, if_neg hn.ne_parent]

theorem lead_of_isName (hn : IsName n) : lead n = [.name n] := by
  rw [lead, if_neg hn.ne_nil, if_neg hn.ne_here, component?_of_isName hn]
  rfl

/-- A path that is not empty has its components one by one. -/
theorem components_of_segments (hp : p ≠ []) (h : segments p = s :: ss) :
    components p = lead s ++ ss.filterMap component? := by
  obtain ⟨b, bs, rfl⟩ := List.exists_cons_of_ne_nil hp
  simp only [components, h]

theorem segments_ne_nil (p : Path) : segments p ≠ [] := splitAtClass_ne_nil _ _

/-- A slash parts the segments before it from those behind it. -/
theorem segments_append_cons (p q : Path) :
    segments (p ++ slash :: q) = segments p ++ segments q := by
  rw [segments, splitAtClass_append_cons p rfl, segments, segments]

theorem segments_of_not_mem (h : slash ∉ s) : segments s = [s] :=
  splitAtClass_of_solid fun _ hb => beq_eq_false_iff_ne.mpr fun heq => h (heq ▸ hb)

theorem segments_of_isName (hn : IsName n) : segments n = [n] := segments_of_not_mem hn.no_slash

/-- What is put behind a path follows its bytes, and a slash unless that is the last of them. -/
theorem join_eq (hp : p ≠ []) (n : FileName) :
    ∃ front sep, p = front ++ sep ∧ (sep = [] ∨ sep = [slash]) ∧
      join p n = front ++ slash :: n := by
  obtain ⟨front, b, hb⟩ := (List.eq_nil_or_concat p).resolve_left hp
  rw [List.concat_eq_append] at hb
  subst hb
  rw [join, List.getLast?_concat]
  by_cases hslash : b = slash
  · subst hslash
    exact ⟨front, [slash], rfl, Or.inr rfl, by simp⟩
  · exact ⟨front ++ [b], [], (List.append_nil _).symm, Or.inl rfl, by simp [hslash]⟩

theorem join_ne_nil (hp : p ≠ []) (n : FileName) : join p n ≠ [] := by
  obtain ⟨front, sep, -, -, hjoin⟩ := join_eq hp n
  rw [hjoin]
  exact List.append_ne_nil_of_right_ne_nil _ (List.cons_ne_nil _ _)

/-- A name behind a path is its last segment, in the place of an empty one behind a slash. -/
theorem segments_join (hn : IsName n) (hp : p ≠ []) :
    ∃ ss tail, ss ≠ [] ∧ segments p = ss ++ tail ∧ (tail = [] ∨ tail = [[]]) ∧
      segments (join p n) = ss ++ [n] := by
  obtain ⟨front, sep, rfl, hsep, hjoin⟩ := join_eq hp n
  have hsegments : segments (join (front ++ sep) n) = segments front ++ [n] := by
    rw [hjoin, segments_append_cons, segments_of_isName hn]
  refine ⟨segments front, sep.map fun _ => [], segments_ne_nil front, ?_, ?_, hsegments⟩
  · rcases hsep with rfl | rfl
    · rw [List.append_nil, List.map_nil, List.append_nil]
    · rw [segments_append_cons]
      rfl
  · rcases hsep with rfl | rfl
    · exact Or.inl rfl
    · exact Or.inr rfl

/-- A name behind a path is its last component. -/
theorem components_join (hn : IsName n) (p : Path) :
    components (join p n) = components p ++ [.name n] := by
  by_cases hp : p = []
  · -- an empty path has no components
    subst hp
    rw [join, List.getLast?_nil, components_of_segments hn.ne_nil (segments_of_isName hn),
      lead_of_isName hn]
    rfl
  · obtain ⟨ss, tail, hne, hss, htail, hjoin⟩ := segments_join hn hp
    obtain ⟨s, ss, rfl⟩ := List.exists_cons_of_ne_nil hne
    have hnone : tail.filterMap component? = [] := by
      rcases htail with rfl | rfl <;> rfl
    have hlast : [n].filterMap component? = [.name n] := by
      rw [List.filterMap_cons, component?_of_isName hn]
      rfl
    rw [List.cons_append] at hss hjoin
    rw [components_of_segments hp hss, components_of_segments (join_ne_nil hp n) hjoin,
      List.filterMap_append, List.filterMap_append, hnone, hlast, List.append_nil,
      List.append_assoc]

end Path

namespace Scanner

variable {sc : Scanner} {p q : Path} {ns ms : List FileName}

/-- **Names behind the root are the last components of a path.** -/
theorem components_pathOf (hns : ∀ n ∈ ns, IsName n) :
    Path.components (sc.pathOf ns) =
      Path.components sc.root ++ ns.map .name := by
  rw [pathOf]
  generalize sc.root = p
  induction ns generalizing p with
  | nil => rw [List.foldl_nil, List.map_nil, List.append_nil]
  | cons n ns ih =>
    obtain ⟨hn, hns⟩ := List.forall_mem_cons.mp hns
    rw [List.foldl_cons, ih hns, Path.components_join hn, List.append_assoc, List.map_cons,
      List.singleton_append]

/-- No other names lead to the same path, whatever its spelling. -/
theorem eq_of_same_pathOf (hns : ∀ n ∈ ns, IsName n) (hms : ∀ n ∈ ms, IsName n)
    (h : Path.same (sc.pathOf ns) (sc.pathOf ms) = true) : ns = ms := by
  rw [Path.same, beq_iff_eq, components_pathOf hns, components_pathOf hms,
    List.append_cancel_left_eq] at h
  have hinj : Function.Injective Path.Component.name := fun _ _ => Path.Component.name.inj
  exact List.map_injective_iff.mpr hinj h

/-- A path that a scanner may come upon: names behind its root. -/
def Spells (sc : Scanner) (p : Path) : Prop :=
  ∃ ns, (∀ n ∈ ns, IsName n) ∧ p = sc.pathOf ns

/-- **A scanner spells every file in one way.** -/
theorem Spells.eq_of_same (hp : sc.Spells p) (hq : sc.Spells q) (h : Path.same p q = true) :
    p = q := by
  obtain ⟨ns, hns, rfl⟩ := hp
  obtain ⟨ms, hms, rfl⟩ := hq
  rw [eq_of_same_pathOf hns hms h]

end Scanner

/-! ## The files of a walk -/

namespace Files

variable {disk : Disk} {top : Entry} {followLinks : Bool}

/-- What leads to files is made of names. -/
def Named (found : List (List FileName)) : Prop := ∀ ns ∈ found, ∀ n ∈ ns, IsName n

theorem Named.append {found more : List (List FileName)} (h : Named found) (h' : Named more) :
    Named (found ++ more) := fun ns hns => (List.mem_append.mp hns).elim (h ns) (h' ns)

theorem named_nil : Named [] := fun _ hns => absurd hns List.not_mem_nil

theorem named_singleton {names : List FileName} (h : ∀ n ∈ names, IsName n) : Named [names] :=
  fun _ hns => List.mem_singleton.mp hns ▸ h

/-- Two walks one after the other find what both of them find. -/
theorem named_of_bind {x y : Except WalkError (List (List FileName))}
    {found : List (List FileName)} (hx : ∀ first, x = .ok first → Named first)
    (hy : ∀ more, y = .ok more → Named more)
    (h : (x >>= fun first => y >>= fun more => pure (first ++ more)) = .ok found) :
    Named found := by
  cases x with
  | error e => cases h
  | ok first =>
    cases y with
    | error e => cases h
    | ok more =>
      cases h
      exact (hx first rfl).append (hy more rfl)

/-- The entries of a directory have names, and what lies below them does if that is so one level
down. -/
theorem named_walkEntries {depth : Nat}
    (hfrom : ∀ {open_ : List Place} {place : Place} {names : List FileName}
      {found : List (List FileName)}, (∀ n ∈ names, IsName n) →
      walkFrom top followLinks depth open_ place names = .ok found → Named found)
    {open_ : List Place} {place : Place} {names : List FileName} (hnames : ∀ n ∈ names, IsName n)
    {es : List (FileName × Entry)} (hes : ∀ e ∈ es, IsName e.1) {found : List (List FileName)}
    (h : walkEntries top followLinks depth open_ place names es = .ok found) : Named found := by
  induction es generalizing found with
  | nil =>
    rw [walkEntries] at h
    cases h
    exact named_nil
  | cons e es ih =>
    obtain ⟨n, e⟩ := e
    obtain ⟨hn, hes⟩ := List.forall_mem_cons.mp hes
    have hbelow : ∀ m ∈ names ++ [n], IsName m := fun m hm =>
      (List.mem_append.mp hm).elim (hnames m) fun hm => List.mem_singleton.mp hm ▸ hn
    have hmore : ∀ more, walkEntries top followLinks depth open_ place names es = .ok more →
        Named more := fun more => ih hes
    cases e with
    | file bytes modified =>
      rw [walkEntries] at h
      refine named_of_bind (fun first hfirst => ?_) hmore h
      cases hfirst
      exact named_singleton hbelow
    | directory entries =>
      rw [walkEntries] at h
      exact named_of_bind (fun first => hfrom hbelow) hmore h
    | link target =>
      rw [walkEntries] at h
      split at h
      · split at h
        · cases h
        · split at h
          · cases h
          · exact named_of_bind (fun first => hfrom hbelow) hmore h
      · refine named_of_bind (fun first hfirst => ?_) hmore h
        cases hfirst
        exact named_nil

theorem named_walkFrom (hplain : Plain disk) {depth : Nat} {open_ : List Place} {place : Place}
    {names : List FileName} {found : List (List FileName)} (hnames : ∀ n ∈ names, IsName n)
    (h : walkFrom disk.top followLinks depth open_ place names = .ok found) : Named found := by
  induction depth generalizing open_ place names found with
  | zero =>
    rw [walkFrom] at h
    cases h
  | succ depth ih =>
    rw [walkFrom] at h
    split at h
    · rename_i es hes
      exact named_walkEntries ih hnames (hplain hes) h
    · cases h
      exact named_singleton hnames
    · cases h
      exact named_nil

/-- **What leads to the files of a walk are names.** -/
theorem named_of_walk (hplain : Plain disk) {p : Path} {found : List (List FileName)}
    (h : walk disk followLinks p = .ok found) : Named found := by
  rw [walk] at h
  split at h
  · cases h
  · split at h
    · cases h
      exact named_nil
    · exact named_walkFrom hplain (fun _ hn => absurd hn List.not_mem_nil) h

end Files

namespace Scanner

variable {sc : Scanner} {disk : Disk} {paths : List Path} {found : Snapshot} {p : Path} {t : Int}

/-- The files of a scan are spelled as a scanner does. -/
theorem spells_of_scan (hplain : Plain disk) (h : sc.scan disk = .ok paths) (hp : p ∈ paths) :
    sc.Spells p := by
  rw [scan] at h
  split at h
  · split at h
    · cases h
    · rename_i found hwalk
      cases h
      rw [List.mem_mergeSort, List.mem_map] at hp
      obtain ⟨ns, hns, rfl⟩ := hp
      exact ⟨ns, named_of_walk hplain hwalk ns (List.mem_filter.mp hns).1, rfl⟩
  · cases h

/-- A snapshot is a scan with the times of the files. -/
theorem of_mem_snapshot (h : sc.snapshot disk = .ok found) (he : (p, t) ∈ found) :
    (∃ paths, sc.scan disk = .ok paths ∧ p ∈ paths) ∧ Files.modified? disk p = some t := by
  rw [snapshot] at h
  cases hscan : sc.scan disk with
  | error e =>
    rw [hscan] at h
    cases h
  | ok paths =>
    rw [hscan] at h
    cases h
    obtain ⟨q, hq, hqt⟩ := List.mem_filterMap.mp he
    obtain ⟨t', ht', heq⟩ := Option.map_eq_some_iff.mp hqt
    cases heq
    exact ⟨⟨paths, rfl, hq⟩, ht'⟩

end Scanner

end MarkdownIndex
