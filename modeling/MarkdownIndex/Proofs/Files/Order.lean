import MarkdownIndex.Files.Path

/-!
# The order of paths

Paths are compared component by component, so that what lies in a directory stands together,
whatever other names begin like its own. Two spellings of one path are equal in this order, and no
others are.

* `compareLists_eq`, `Component.compare_eq` — the order is made of lexicographic orders of the
  library.
* `compare_eq_eq_iff` — equal paths are the same.
* `Increasing` — paths that stand in this order, each of them once; `increasing_mergeSort` — paths
  that differ are in this order when they have been sorted.
-/

namespace MarkdownIndex.Path

variable {α β : Type} {cmp : α → α → Ordering} {p q : Path}

/-! ## Components -/

/-- An order of what things are made into is one of the things. -/
theorem transCmp_through (cmp : α → α → Ordering) [Std.TransCmp cmp] (f : β → α) :
    Std.TransCmp fun a b => cmp (f a) (f b) where
  eq_swap := Std.OrientedCmp.eq_swap
  isLE_trans := Std.TransCmp.isLE_trans

theorem compareLists_eq : compareLists cmp = List.compareLex cmp := by
  funext as bs
  induction as generalizing bs with
  | nil => cases bs <;> rfl
  | cons a as ih =>
    cases bs with
    | nil => rfl
    | cons b bs => rw [compareLists, List.compareLex_cons_cons, ih]

instance [Std.TransCmp cmp] : Std.TransCmp (compareLists cmp) := by
  rw [compareLists_eq]
  infer_instance

instance [Std.LawfulEqCmp cmp] : Std.LawfulEqCmp (compareLists cmp) := by
  rw [compareLists_eq]
  infer_instance

instance : Std.TransCmp compareBytes := inferInstanceAs (Std.TransCmp (compareOn UInt8.toNat))

instance : Std.LawfulEqCmp compareBytes where
  compare_self := Std.ReflCmp.compare_self
  eq_of_compare h := UInt8.toNat_inj.mp (Std.LawfulEqOrd.eq_of_compare h)

/-- The bytes of a component, if it is a name. -/
def Component.bytes : Component → List UInt8
  | .name s => s
  | _ => []

/-- Components are compared by their kind, and then by their bytes. -/
theorem Component.compare_eq : Component.compare =
    compareLex (compareOn Component.rank) fun a b => compareLists compareBytes a.bytes b.bytes := by
  funext a b
  cases a <;> cases b <;> rfl

theorem Component.bytes_injective {a b : Component} (hrank : a.rank = b.rank)
    (hbytes : a.bytes = b.bytes) : a = b := by
  cases a <;> cases b <;> simp_all [Component.rank, Component.bytes]

instance : Std.TransCmp Component.compare := by
  rw [Component.compare_eq]
  have := transCmp_through (compareLists compareBytes) Component.bytes
  infer_instance

instance : Std.LawfulEqCmp Component.compare where
  compare_self := Std.ReflCmp.compare_self
  eq_of_compare {a b} h := by
    rw [Component.compare_eq, compareLex, Ordering.then_eq_eq] at h
    exact Component.bytes_injective (Std.LawfulEqOrd.eq_of_compare h.1)
      (Std.LawfulEqCmp.eq_of_compare h.2)

/-! ## Paths -/

instance : Std.TransCmp compare := transCmp_through (compareLists Component.compare) components

/-- **Paths that are equal in this order are the same,** and only those. -/
theorem compare_eq_eq_iff : compare p q = .eq ↔ same p q = true := by
  rw [compare, same, Std.LawfulEqCmp.compare_eq_iff_eq, beq_iff_eq]

theorem le_trans {p q r : Path} (hpq : le p q = true) (hqr : le q r = true) : le p r = true :=
  Std.TransCmp.isLE_trans hpq hqr

theorem le_total (p q : Path) : (le p q || le q p) = true := by
  have hswap : compare q p = (compare p q).swap := Std.OrientedCmp.eq_swap
  rw [le, le, hswap]
  cases compare p q <;> rfl

/-- A path that does not come after another one and is not the same comes before it. -/
theorem compare_of_le (hle : le p q = true) (hne : same p q = false) : compare p q = .lt := by
  cases h : compare p q with
  | lt => rfl
  | eq => rw [compare_eq_eq_iff.mp h] at hne; cases hne
  | gt => rw [le, h] at hle; cases hle

/-! ## Sorting -/

theorem same_comm (p q : Path) : same p q = same q p := Bool.beq_comm

/-- The paths stand in their order, and each of them but once. -/
def Increasing (ps : List Path) : Prop := ps.Pairwise fun p q => compare p q = .lt

/-- No path stands there twice, not even in another spelling. -/
def Distinct (ps : List Path) : Prop := ps.Pairwise fun p q => same p q = false

theorem Distinct.of_perm {ps qs : List Path} (h : Distinct ps) (hperm : ps.Perm qs) :
    Distinct qs :=
  (hperm.pairwise_iff fun hpq => same_comm _ _ ▸ hpq).mp h

/-- **What has been sorted by its paths has them in their order,** if no two are the same. -/
theorem increasing_mergeSort {f : α → Path} {as : List α} (h : Distinct (as.map f)) :
    Increasing ((as.mergeSort fun a b => le (f a) (f b)).map f) := by
  have hsorted := @List.pairwise_mergeSort _ (fun a b => le (f a) (f b))
    (fun _ _ _ => le_trans) (fun a b => le_total (f a) (f b)) as
  have hdistinct : Distinct ((as.mergeSort fun a b => le (f a) (f b)).map f) :=
    h.of_perm ((List.mergeSort_perm as _).map f).symm
  rw [Increasing, List.pairwise_map]
  rw [Distinct, List.pairwise_map] at hdistinct
  exact hsorted.imp₂ (fun _ _ hle hne => compare_of_le hle hne) hdistinct

/-- So have paths that have been sorted themselves. -/
theorem increasing_mergeSort_le {ps : List Path} (h : Distinct ps) :
    Increasing (ps.mergeSort le) := by
  have hdistinct : Distinct (ps.map id) := by rwa [List.map_id]
  have hsorted := increasing_mergeSort hdistinct
  rwa [List.map_id] at hsorted

end MarkdownIndex.Path
