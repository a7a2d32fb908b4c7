import MarkdownIndex.Proofs.Certificate
import MarkdownIndex.Proofs.Ingest.Trace

/-!
# Races: one file ingested several times at once

Nothing keeps two runs of ingestion from taking turns on the same file, and no statement of a run is
tied to another. So it is the last statement of its kind that counts: the document is that of the
run that wrote it last, while its rows are those of the run that last took the old ones away, and
whatever the others added after that.

* `Last` — the run that is the last to ask for something, and what is asked after it.
* `Rewrites` — what a run asks whose file is processed, in order.
* `id_of_gives` — all runs on a file write their rows under one key.
* `outcome_of_race` — the main result; for runs one after the other it is that of the last run.
-/

namespace MarkdownIndex

open Text Memory Program

/-! ## The last to ask for something -/

section Last

variable {I : Interface} {ι : Type} {P : Exchange I → Prop} {ts us vs : List (ι × Exchange I)}
variable {i j : ι} {x : Exchange I} {u v : List (Exchange I)}

/-- The run is the last to ask for something of a kind; the rest of the exchanges follow. -/
def Last (P : Exchange I → Prop) (ts : List (ι × Exchange I)) (i : ι)
    (rest : List (ι × Exchange I)) : Prop :=
  ∃ us x, ts = us ++ (i, x) :: rest ∧ P x ∧ ∀ y ∈ rest, ¬ P y.2

/-- If something of the kind is asked for, some run is the last to do so. -/
theorem exists_last (h : ∃ y ∈ ts, P y.2) : ∃ i rest, Last P ts i rest := by
  induction ts with
  | nil =>
    obtain ⟨y, hy, -⟩ := h
    cases hy
  | cons x ts ih =>
    by_cases hts : ∃ y ∈ ts, P y.2
    · obtain ⟨i, rest, us, y, rfl, hy, hrest⟩ := ih hts
      exact ⟨i, rest, x :: us, y, rfl, hy, hrest⟩
    · push Not at hts
      obtain ⟨y, hy, hP⟩ := h
      rcases List.mem_cons.mp hy with rfl | hy
      · exact ⟨y.1, ts, [], y.2, rfl, hP, hts⟩
      · exact absurd hP (hts y hy)

/-- Who alone is at it in the end is the last. -/
theorem Last.eq_of_alone (h : Last P (us ++ vs) i ts) (hj : ∃ y, (j, y) ∈ vs ∧ P y)
    (hothers : ∀ y ∈ vs, y.1 ≠ j → ¬ P y.2) : i = j ∧ ts <:+ vs := by
  obtain ⟨us', x, hsplit, hx, hrest⟩ := h
  obtain ⟨y, hy, hPy⟩ := hj
  rcases List.append_eq_append_iff.mp hsplit.symm with ⟨ws, rfl, hws⟩ | ⟨ws, rfl, hws⟩
  · -- the last is asked for before all of them, or is the first of them
    rcases ws with _ | ⟨z, ws⟩
    · rw [List.nil_append] at hws
      subst hws
      refine ⟨?_, List.suffix_cons _ _⟩
      by_contra hne
      exact hothers _ List.mem_cons_self hne hx
    · obtain rfl := (List.cons.inj hws).2
      exact absurd hPy (hrest (j, y) (List.mem_append_right ws hy))
  · refine ⟨?_, ws ++ [(i, x)], by rw [hws, List.append_assoc, List.singleton_append]⟩
    by_contra hne
    refine hothers (i, x) ?_ hne hx
    rw [hws]
    exact List.mem_append_right ws List.mem_cons_self

variable [DecidableEq ι]

theorem Last.own_suffix (h : Last P ts i vs) (j : ι) : own j vs <:+ own j ts := by
  obtain ⟨us, x, rfl, -, -⟩ := h
  refine ⟨own j (us ++ [(i, x)]), ?_⟩
  rw [← own_append, List.append_assoc, List.singleton_append]

/-- What any run asks after the last request of a kind, it asks after its own last one. -/
theorem Last.own_suffix_of_own_eq (h : Last P ts i vs) (hj : own j ts = u ++ x :: v) (hx : P x) :
    own j vs <:+ v := by
  obtain ⟨w, hw⟩ := h.own_suffix j
  obtain ⟨us, y, -, -, hrest⟩ := h
  have hnot : x ∉ own j vs := fun hmem => hrest (j, x) (mem_own.mp hmem) hx
  rw [hj] at hw
  rcases List.append_eq_append_iff.mp hw with ⟨a, rfl, ha⟩ | ⟨a, rfl, ha⟩
  · exact absurd (ha ▸ List.mem_append_right a List.mem_cons_self) hnot
  · rcases a with _ | ⟨z, a⟩
    · rw [List.nil_append] at ha
      exact absurd (ha ▸ List.mem_cons_self) hnot
    · exact ⟨a, (List.cons.inj ha).2.symm⟩

/-- For the last run that is all that it asks after it. -/
theorem Last.own_eq (h : Last P ts i vs) (hi : own i ts = u ++ x :: v) (hx : P x)
    (hv : ∀ y ∈ v, ¬ P y) : own i vs = v := by
  obtain ⟨w, rfl⟩ := h.own_suffix_of_own_eq hi hx
  obtain ⟨us, y, rfl, hy, -⟩ := h
  rcases List.eq_nil_or_concat w with rfl | ⟨w, z, rfl⟩
  · rfl
  · -- otherwise the last request of the run would be one of those after it
    rw [own_append, own_cons, if_pos rfl, List.append_cons, List.append_cons u,
      ← List.append_assoc, List.append_cancel_right_eq, List.concat_eq_append,
      ← List.append_assoc] at hi
    obtain rfl := List.singleton_inj.mp (List.append_inj_right' hi rfl)
    exact absurd hy (hv y (List.mem_append_left _ (by simp)))

end Last

/-- The request changes documents or rows. -/
def Exchange.Alters (x : Exchange Work.interface) : Prop :=
  match x.call with
  | .store (.upsertDocument _) => True
  | .store (.clearDocumentHash _) => True
  | .store (.deleteChunks _) => True
  | .store (.insertChunk _ _ _) => True
  | _ => False

section Alters

variable {x : Exchange Work.interface} {id : Int}

theorem Exchange.alters_of_writesDocument (hx : x.WritesDocument) : x.Alters := by
  obtain ⟨c, r⟩ := x
  rcases c with _ | c | _
  · exact hx
  · cases c <;> first | exact trivial | exact hx
  · exact hx

theorem Exchange.alters_of_deletes (hx : x.Deletes id) : x.Alters := by
  obtain ⟨c, r⟩ := x
  rcases c with _ | c | _
  · exact hx
  · cases c <;> first | exact trivial | exact hx
  · exact hx

theorem Exchange.added_of_not_alters (hx : ¬ x.Alters) : x.added id = [] := by
  obtain ⟨c, r⟩ := x
  rcases c with _ | c | _
  · rfl
  · cases c <;> first | rfl | exact absurd trivial hx
  · rfl

end Alters

namespace Ingestor

variable {ι : Type} {g : Ingestor} {path : Path} {id : Int} {n : Nat}
variable {t : List (Exchange Work.interface)} {s s' : Memory} {R : Store.Call → Prop}

/-! ## One run -/

/-- What a run asks whose file is processed: the document is written, the old rows are taken away,
and the chunks are added. -/
structure Rewrites (g : Ingestor) (path : Path) (bytes : List UInt8) (text : List Char)
    (d : NewDocument) (id : Int) (u : List (Exchange Work.interface))
    (t : List (Exchange Work.interface)) : Prop where
  /-- the document is that of the file -/
  describes : Describes path bytes text d
  /-- the chunks are those of the text -/
  filling : Filling id (chunks g.limits (String.ofList text)) (.ok ()) u
  /-- all that is asked, in order -/
  eq_append : ∃ known m now n, t = opening path bytes known m now ++
    .stored (.upsertDocument d) (.ok id) :: .stored (.deleteChunks id) (.ok n) :: u

theorem Course.rewrites (h : Course g path t (.ok (.processed n))) :
    ∃ bytes text d id u, Rewrites g path bytes text d id u t ∧
      n = (chunks g.limits (String.ofList text)).length := by
  cases h with
  | @written bytes known text m now d id n u hnew hd hu =>
    exact ⟨bytes, text, d, id, u, ⟨hd, hu, known, m, now, n, rfl⟩, rfl⟩

theorem not_deletes_of_fills {x : Exchange Work.interface} {j : Int} (hx : x.Fills id) :
    ¬ x.Deletes j := by
  rcases of_fills hx with ⟨n, r, rfl⟩ | ⟨texts, r, rfl⟩ | ⟨c, v, r, rfl⟩ <;> exact not_false

section Rewrites

variable {bytes : List UInt8} {text : List Char} {d : NewDocument}
variable {u : List (Exchange Work.interface)} (h : Rewrites g path bytes text d id u t)
include h

theorem Rewrites.read_mem : .read path (.ok bytes) ∈ t := by
  obtain ⟨known, m, now, n, rfl⟩ := h.eq_append
  exact List.mem_cons_self

theorem Rewrites.upsert_mem : .stored (.upsertDocument d) (.ok id) ∈ t := by
  obtain ⟨known, m, now, n, rfl⟩ := h.eq_append
  exact List.mem_append_right _ List.mem_cons_self

/-- Its document is the only one that the run writes. -/
theorem Rewrites.eq_upsert {x : Exchange Work.interface} (hx : x ∈ t) (hw : x.WritesDocument) :
    x = .stored (.upsertDocument d) (.ok id) := by
  obtain ⟨known, m, now, n, rfl⟩ := h.eq_append
  rcases List.mem_append.mp hx with hx | hx
  · have hnot : ∀ y ∈ opening path bytes known m now, ¬ y.WritesDocument :=
      forall_mem_opening.mpr ⟨not_false, not_false, not_false, not_false⟩
    exact absurd hw (hnot x hx)
  · rcases hx with _ | ⟨_, _ | ⟨_, hx⟩⟩
    · rfl
    · exact hw.elim
    · exact absurd hw (not_writesDocument_of_fills (h.filling.fills x hx))

/-- After it has taken the old rows away, the run adds its own. -/
theorem Rewrites.eq_append_deletes :
    ∃ v x, t = v ++ x :: u ∧ x.Deletes id ∧ ∀ y ∈ u, ¬ y.Deletes id := by
  obtain ⟨known, m, now, n, rfl⟩ := h.eq_append
  refine ⟨opening path bytes known m now ++ [.stored (.upsertDocument d) (.ok id)],
    .stored (.deleteChunks id) (.ok n), by rw [List.append_assoc, List.singleton_append], rfl, ?_⟩
  exact fun y hy => not_deletes_of_fills (h.filling.fills y hy)

end Rewrites

/-! ## The store under all runs -/

/-- **All runs on a file write its document under one key.** -/
theorem id_of_gives {k : String} (hg : Gives (Serves R) s t s') (hs : s.WellFormed)
    (ht : ∀ x ∈ t, x.WritesDocument → ∃ d id, x = .stored (.upsertDocument d) (.ok id) ∧
      d.path = k)
    {d : NewDocument} (hx : .stored (.upsertDocument d) (.ok id) ∈ t) : id = s.key k := by
  induction hg with
  | nil s => cases hx
  | @cons x s s₁ s₂ t h rest ih =>
    have hone : Gives (Serves R) s [x] s₁ := Gives.cons h (Gives.nil s₁)
    rcases List.mem_cons.mp hx with rfl | hx
    · obtain ⟨d', id', hd', rfl⟩ := ht _ List.mem_cons_self trivial
      obtain ⟨now, hid, -⟩ := of_gives_ok hone
      cases hd'
      rw [hid]
      exact fst_upsert hs
    · have hkey : s₁.key k = s.key k := by
        by_cases hw : x.WritesDocument
        · obtain ⟨d', id', rfl, rfl⟩ := ht x List.mem_cons_self hw
          obtain ⟨now, -, hrest⟩ := of_gives_ok hone
          rw [gives_nil.mp hrest]
          exact key_upsert hs
        · exact key_congr (documents_of_gives hone fun y hy => List.mem_singleton.mp hy ▸ hw)
      rw [ih (hs.of_gives hone) (fun y hy => ht y (List.mem_cons_of_mem x hy)) hx, hkey]

variable {ts vs : List (ι × Exchange Work.interface)} {i : ι}

/-- The rows of a document are what has been added since they were last taken away. -/
theorem rows_of_last (hg : Gives (Serves fun _ => False) s (ts.map (·.2)) s')
    (h : Last (Exchange.Deletes id) ts i vs) :
    s'.rows id = (vs.flatMap fun y => y.2.added id).map Chunk.row := by
  obtain ⟨us, ⟨c, r⟩, rfl, hx, hrest⟩ := h
  rw [List.map_append, List.map_cons, gives_append] at hg
  obtain ⟨s₁, -, hg⟩ := hg
  obtain ⟨s₂, hdelete, hg⟩ := gives_cons.mp hg
  have hempty : s₂.rows id = [] := by
    rcases c with _ | c | _
    · exact hx.elim
    · cases c with
      | deleteChunks j =>
        obtain rfl : j = id := hx
        rcases serves_store.mp hdelete with ⟨now, -, rfl⟩ | ⟨f, hf, -⟩
        · exact rows_deleteChunks
        · exact hf.elim
      | _ => exact hx.elim
    · exact hx.elim
  rw [rows_of_gives hg fun y hy => ?_, hempty, List.nil_append, List.flatMap_map]
  obtain ⟨z, hz, rfl⟩ := List.mem_map.mp hy
  exact hrest z hz

/-- The document of a file is that of the last run that has written it. -/
theorem document?_of_last {d : NewDocument} (hs : s.WellFormed)
    (hg : Gives (Serves R) s (ts.map (·.2)) s') (h : Last Exchange.WritesDocument ts i vs)
    (hi : ∀ x, (i, x) ∈ ts → x.WritesDocument → x = .stored (.upsertDocument d) (.ok id)) :
    ∃ e, s'.document? d.path = some e ∧ e.id = id ∧ e.title = d.title ∧
      e.metadata = d.metadata := by
  obtain ⟨us, x, rfl, hx, hrest⟩ := h
  obtain rfl := hi x (List.mem_append_right us List.mem_cons_self) hx
  rw [List.map_append, List.map_cons, gives_append] at hg
  obtain ⟨s₁, hg₁, hg⟩ := hg
  have hs₁ := hs.of_gives hg₁
  obtain ⟨now, hid, hg⟩ := of_gives_ok hg
  have hdocuments := documents_of_gives hg fun y hy => by
    obtain ⟨z, hz, rfl⟩ := List.mem_map.mp hy
    exact hrest z hz
  refine ⟨s₁.writtenDocument d now, ?_, hid.symm, rfl, rfl⟩
  rw [document?_congr hdocuments]
  exact document?_upsert_self hs₁

/-- What one run has added, among runs of which the others add nothing. -/
theorem flatMap_added_of_alone [DecidableEq ι] (h : ∀ y ∈ vs, y.1 ≠ i → ¬ y.2.Alters) :
    (vs.flatMap fun y => y.2.added id) = (own i vs).flatMap (Exchange.added id) := by
  induction vs with
  | nil => rfl
  | cons y vs ih =>
    obtain ⟨j, x⟩ := y
    rw [List.flatMap_cons, ih fun y hy => h y (List.mem_cons_of_mem _ hy), own_cons]
    split
    · rw [List.flatMap_cons]
    · rename_i hne
      rw [Exchange.added_of_not_alters (h _ List.mem_cons_self hne), List.nil_append]

/-! ## Several runs -/

section Runs

variable [DecidableEq ι] {gs : ι → Ingestor} {bytes : ι → List UInt8} {text : ι → List Char}
variable {d : ι → NewDocument} {u : ι → List (Exchange Work.interface)}

/-- Runs that process a file write its document under its key. -/
theorem exists_rewrites {ns : ι → Nat} (hs : s.WellFormed)
    (h : Alongside (Serves R) (fun i => ((gs i).processFile path).run) s ts
      (fun i => .ok (.processed (ns i))) s') :
    ∃ (bytes : ι → List UInt8) (text : ι → List Char) (d : ι → NewDocument)
      (u : ι → List (Exchange Work.interface)),
      ∀ i, Rewrites (gs i) path (bytes i) (text i) (d i) (s.key (Path.text path)) (u i)
        (own i ts) := by
  obtain ⟨htraces, hgives⟩ := alongside_iff.mp h
  choose bytes text d id u hrun hn using fun i => (course_of_traces (htraces i)).rewrites
  have hkey : ∀ i, id i = s.key (Path.text path) := fun i => by
    refine id_of_gives hgives hs (fun x hx hw => ?_)
      (List.mem_map.mpr ⟨_, mem_own.mp (hrun i).upsert_mem, rfl⟩)
    obtain ⟨y, hy, rfl⟩ := List.mem_map.mp hx
    exact ⟨_, _, (hrun y.1).eq_upsert (mem_own.mpr hy) hw, (hrun y.1).describes.path_eq⟩
  exact ⟨bytes, text, d, u, fun i => hkey i ▸ hrun i⟩

variable (hrun : ∀ i, Rewrites (gs i) path (bytes i) (text i) (d i) id (u i) (own i ts))
include hrun

/-- The last run to write the document leaves its title and hash. -/
theorem exists_last_writes (i₀ : ι) (hs : s.WellFormed)
    (hg : Gives (Serves R) s (ts.map (·.2)) s') :
    ∃ w rest e, Last Exchange.WritesDocument ts w rest ∧
      s'.document? (Path.text path) = some e ∧ e.id = id ∧
      e.title = Markdown.title (String.ofList (text w)) (Path.fileStem path) ∧
      e.metadata.fileHash = some (Sha256.hexDigest (bytes w)) := by
  obtain ⟨w, rest, hw⟩ : ∃ w rest, Last Exchange.WritesDocument ts w rest :=
    exists_last ⟨_, mem_own.mp (hrun i₀).upsert_mem, trivial⟩
  obtain ⟨e, he, hid, htitle, hmetadata⟩ := document?_of_last hs hg hw
    fun x hx => (hrun w).eq_upsert (mem_own.mpr hx)
  have hdescribes := (hrun w).describes
  rw [hdescribes.path_eq] at he
  rw [hdescribes.title_eq] at htitle
  exact ⟨w, rest, e, hw, he, hid, htitle, hmetadata ▸ hdescribes.hash_eq⟩

/-- The rows of the last run to take the old ones away are all there, and the last ones of the
others. -/
theorem exists_last_deletes (i₀ : ι) (hg : Gives (Serves fun _ => False) s (ts.map (·.2)) s') :
    ∃ k rest, Last (Exchange.Deletes id) ts k rest ∧
      s'.rows id = (rest.flatMap fun y => y.2.added id).map Chunk.row ∧
      (own k rest).flatMap (Exchange.added id) = chunks (gs k).limits (String.ofList (text k)) ∧
      ∀ i, (own i rest).flatMap (Exchange.added id) <:+
        chunks (gs i).limits (String.ofList (text i)) := by
  obtain ⟨k, rest, hk⟩ : ∃ k rest, Last (Exchange.Deletes id) ts k rest := by
    obtain ⟨v, x, hown, hx, -⟩ := (hrun i₀).eq_append_deletes
    exact exists_last ⟨(i₀, x), mem_own.mp (hown ▸ List.mem_append_right v List.mem_cons_self), hx⟩
  refine ⟨k, rest, hk, rows_of_last hg hk, ?_, fun i => ?_⟩
  · obtain ⟨v, x, hown, hx, hu⟩ := (hrun k).eq_append_deletes
    rw [hk.own_eq hown hx hu, (hrun k).filling.added_eq rfl]
  · obtain ⟨v, x, hown, hx, -⟩ := (hrun i).eq_append_deletes
    obtain ⟨v', hv'⟩ := hk.own_suffix_of_own_eq hown hx
    rw [← (hrun i).filling.added_eq rfl, ← hv', List.flatMap_append]
    exact List.suffix_append _ _

/-- A run that begins to write when all the others have ceased to is the last in every respect. -/
theorem eq_of_alone {j k w : ι} {us restk restw : List (ι × Exchange Work.interface)}
    (hts : ts = us ++ vs) (hus : ∀ x ∈ own j us, ¬ x.Alters)
    (hvs : ∀ i, i ≠ j → ∀ x ∈ own i vs, ¬ x.Alters)
    (hw : Last Exchange.WritesDocument ts w restw) (hk : Last (Exchange.Deletes id) ts k restk) :
    w = j ∧ k = j ∧
      (restk.flatMap fun y => y.2.added id) = (own k restk).flatMap (Exchange.added id) := by
  subst hts
  have hothers : ∀ y ∈ vs, y.1 ≠ j → ¬ y.2.Alters := fun y hy hne =>
    hvs y.1 hne y.2 (mem_own.mpr hy)
  have hlate : ∀ x ∈ own j (us ++ vs), x.Alters → (j, x) ∈ vs := fun x hx halters => by
    rw [own_append] at hx
    rcases List.mem_append.mp hx with hx | hx
    · exact absurd halters (hus x hx)
    · exact mem_own.mp hx
  obtain ⟨rfl, -⟩ := hw.eq_of_alone ⟨_, hlate _ (hrun j).upsert_mem trivial, trivial⟩
    fun y hy hne hwrites => hothers y hy hne (Exchange.alters_of_writesDocument hwrites)
  obtain ⟨v, x, hown, hx, -⟩ := (hrun w).eq_append_deletes
  have hmem : x ∈ own w (us ++ vs) := hown ▸ List.mem_append_right v List.mem_cons_self
  obtain ⟨rfl, hsuffix⟩ := hk.eq_of_alone ⟨x, hlate x hmem (Exchange.alters_of_deletes hx), hx⟩
    fun y hy hne hdelete => hothers y hy hne (Exchange.alters_of_deletes hdelete)
  exact ⟨rfl, rfl, flatMap_added_of_alone fun y hy => hothers y (hsuffix.subset hy)⟩

end Runs

/-! ## The main result -/

/-- **What is left of several runs on one file.** Whatever turns they take: once all of them have
processed the file, its document has title and hash of the contents that the run has read that wrote
it last; and its rows are those that have been added since the old ones were last taken away, which
are all chunks of the run that has done so, in order, and the last chunks of the others in between.
So if a run begins to write when all the others have ceased to, document and rows are its own. -/
theorem outcome_of_race [DecidableEq ι] {gs : ι → Ingestor} {ns : ι → Nat} (i₀ : ι)
    (hs : s.WellFormed)
    (h : Alongside (Serves fun _ => False) (fun i => ((gs i).processFile path).run) s ts
      (fun i => .ok (.processed (ns i))) s') :
    ∃ (bytes : ι → List UInt8) (text : ι → List Char) (e : StoredDocument),
      (∀ i, .read path (.ok (bytes i)) ∈ own i ts ∧ decode? (bytes i) = some (text i)) ∧
      s'.document? (Path.text path) = some e ∧
      (∃ w rest, Last Exchange.WritesDocument ts w rest ∧
        e.title = Markdown.title (String.ofList (text w)) (Path.fileStem path) ∧
        e.metadata.fileHash = some (Sha256.hexDigest (bytes w))) ∧
      (∃ k rest, Last (Exchange.Deletes e.id) ts k rest ∧
        s'.rows e.id = (rest.flatMap fun y => y.2.added e.id).map Chunk.row ∧
        (own k rest).flatMap (Exchange.added e.id) =
          chunks (gs k).limits (String.ofList (text k)) ∧
        ∀ i, (own i rest).flatMap (Exchange.added e.id) <:+
          chunks (gs i).limits (String.ofList (text i))) ∧
      ∀ j us vs, ts = us ++ vs → (∀ x ∈ own j us, ¬ x.Alters) →
        (∀ i, i ≠ j → ∀ x ∈ own i vs, ¬ x.Alters) →
          Indexes (gs j).limits s' e (text j) ∧
            e.metadata.fileHash = some (Sha256.hexDigest (bytes j)) := by
  obtain ⟨bytes, text, d, u, hrun⟩ := exists_rewrites hs h
  have hgives := (alongside_iff.mp h).2
  obtain ⟨w, restw, e, hw, he, hid, htitle, hhash⟩ := exists_last_writes hrun i₀ hs hgives
  obtain ⟨k, restk, hk, hrows, hall, hlast⟩ := exists_last_deletes hrun i₀ hgives
  rw [← hid] at hk hrows hall hlast hrun
  refine ⟨bytes, text, e, fun i => ⟨(hrun i).read_mem, (hrun i).describes.decoded⟩, he,
    ⟨w, restw, hw, htitle, hhash⟩, ⟨k, restk, hk, hrows, hall, hlast⟩, fun j us vs hts hus hvs => ?_⟩
  obtain ⟨rfl, rfl, hadded⟩ := eq_of_alone hrun hts hus hvs hw hk
  rw [← Path.fileStem_ofText_text, ← (mem_of_document? he).2] at htitle
  exact ⟨⟨htitle, by rw [hrows, hadded, hall]⟩, hhash⟩

/-! ## Two runs that take turns -/

/-- The chunk of the sample file. -/
def sampleChunk : Chunk := ⟨0, "# A", ⟨"A", 1, .completeSection, 3, 1⟩⟩

/-- A run on the sample file after the opening: its document is written, there are no old rows, and
the chunk is added without a vector to speak of. -/
def sampleRewrite : List (Exchange Work.interface) :=
  [.stored (.upsertDocument sampleDocument) (.ok (1 : Int)), .stored (.deleteChunks 1) (.ok (0 : Nat)),
    ⟨.embed ["# A"], Except.ok [[]]⟩, .stored (.insertChunk 1 sampleChunk []) (.ok ())]

theorem traces_sampleRewrite :
    Traces (sampleIngestor.processFile sampleName).run
      (opening sampleName [35, 32, 65] none none 0 ++ sampleRewrite) (.ok (.processed 1)) := by
  refine traces_processFile (Option.some_ne_none _).symm decode?_sampleWorld chunks_sampleWorld
    (List.cons_ne_nil _ _) ?_
  refine traces_run_bind.mpr
    (Or.inl ⟨(1 : Int), [_], _, rfl, traces_stored.mpr ⟨.ok (1 : Int), rfl, rfl⟩, ?_⟩)
  refine traces_run_tryCatch.mpr (Or.inl ⟨.processed 1, ?_, rfl⟩)
  refine traces_run_bind.mpr
    (Or.inl ⟨(), _, [], (List.append_nil _).symm, ?_, traces_run_pure.mpr ⟨rfl, rfl⟩⟩)
  refine traces_run_bind.mpr
    (Or.inl ⟨(0 : Nat), [_], _, rfl, traces_stored.mpr ⟨.ok (0 : Nat), rfl, rfl⟩, ?_⟩)
  rw [batches, List.take_nil, List.drop_nil, batches]
  refine traces_run_bind.mpr (Or.inl ⟨(), [], _, rfl, traces_run_pure.mpr ⟨rfl, rfl⟩, ?_⟩)
  refine traces_run_bind.mpr
    (Or.inl ⟨(), _, [], (List.append_nil _).symm, ?_, traces_run_pure.mpr ⟨rfl, rfl⟩⟩)
  refine traces_run_bind.mpr (Or.inl ⟨[[]], [_], _, rfl, ?_, ?_⟩)
  · exact traces_run_orFail.mpr ⟨.ok [[]], traces_ask.mpr rfl, rfl⟩
  split
  · refine traces_run_bind.mpr
      (Or.inl ⟨(), _, [], (List.append_nil _).symm, ?_, traces_run_pure.mpr ⟨rfl, rfl⟩⟩)
    exact traces_stored.mpr ⟨.ok (), rfl, rfl⟩
  · rename_i hlength
    exact absurd rfl hlength

/-- Two runs on the sample file that take turns: both write the document, then both take the old
rows away, then both add their chunk. -/
def raceTrace : List (Bool × Exchange Work.interface) :=
  (opening sampleName [35, 32, 65] none none 0).map (false, ·) ++
    (opening sampleName [35, 32, 65] none none 0).map (true, ·) ++
    [(false, .stored (.upsertDocument sampleDocument) (.ok (1 : Int))),
      (true, .stored (.upsertDocument sampleDocument) (.ok (1 : Int))),
      (false, .stored (.deleteChunks 1) (.ok (0 : Nat))),
      (true, .stored (.deleteChunks 1) (.ok (0 : Nat))),
      (false, ⟨.embed ["# A"], Except.ok [[]]⟩),
      (false, .stored (.insertChunk 1 sampleChunk []) (.ok ())),
      (true, ⟨.embed ["# A"], Except.ok [[]]⟩),
      (true, .stored (.insertChunk 1 sampleChunk []) (.ok ()))]

theorem own_raceTrace (i : Bool) :
    own i raceTrace = opening sampleName [35, 32, 65] none none 0 ++ sampleRewrite := by
  cases i <;> rfl

/-- The store after both have written the document. -/
def writtenTwice : Memory :=
  ((({} : Memory).upsert sampleDocument 0).2.upsert sampleDocument 0).2

/-- The store after both runs. -/
def raceMemory : Memory :=
  (writtenTwice.insertChunk 1 sampleChunk []).insertChunk 1 sampleChunk []

theorem gives_raceTrace :
    Gives (Serves fun _ => False) {} (raceTrace.map (·.2)) raceMemory := by
  have hid : ((({} : Memory).upsert sampleDocument 0).2.upsert sampleDocument 0).1 = 1 := by
    rw [fst_upsert wellFormed_empty.upsert, key_upsert wellFormed_empty]
    rfl
  have hempty : writtenTwice.deleteChunks 1 = (0, writtenTwice) := by
    simp only [Memory.deleteChunks, writtenTwice, chunks_upsert]
    rfl
  refine .cons (.host _ _ _) (.cons (.store _ 0 _) (.cons (.host _ _ _) (.cons (.host _ _ _) ?_)))
  refine .cons (.host _ _ _) (.cons (.store _ 0 _) (.cons (.host _ _ _) (.cons (.host _ _ _) ?_)))
  refine .cons (.store _ 0 _) ?_
  refine gives_cons.mpr ⟨writtenTwice, serves_store.mpr (Or.inl ⟨0, congrArg _ hid.symm, rfl⟩), ?_⟩
  have hdelete : Serves (fun _ => False) writtenTwice (.store (.deleteChunks 1))
      (Except.ok (0 : Nat)) writtenTwice :=
    serves_store.mpr (Or.inl ⟨0, congrArg (Except.ok ·.1) hempty.symm, congrArg (·.2) hempty.symm⟩)
  refine .cons hdelete (.cons hdelete ?_)
  refine .cons (.embedded _ _ _) (.cons (.store _ 0 _) ?_)
  exact .cons (.embedded _ _ _) (.cons (.store _ 0 _) (.nil _))

theorem alongside_raceTrace :
    Alongside (Serves fun _ => False) (fun _ => (sampleIngestor.processFile sampleName).run) {}
      raceTrace (fun _ => .ok (.processed 1)) raceMemory :=
  alongside_iff.mpr ⟨fun i => own_raceTrace i ▸ traces_sampleRewrite, gives_raceTrace⟩

/-- The runs of the sample have read the sample file. -/
theorem eq_of_read_raceTrace {bytes : List UInt8} {i : Bool}
    (h : .read sampleName (.ok bytes) ∈ own i raceTrace) : bytes = [35, 32, 65] := by
  rw [own_raceTrace] at h
  obtain ⟨u, hu⟩ := (course_of_traces traces_sampleRewrite).eq_cons_of_mem h
  exact (Except.ok.inj (read_inj (List.cons.inj hu).1)).symm

/-- Both runs of the sample find the sample text, and the document has its hash. -/
theorem outcome_of_race_sample :
    Alongside (Serves fun _ => False) (fun _ => (sampleIngestor.processFile sampleName).run) {}
      raceTrace (fun _ => .ok (.processed 1)) raceMemory ∧
      ∃ e, raceMemory.document? (Path.text sampleName) = some e ∧
        e.metadata.fileHash = some (Sha256.hexDigest [35, 32, 65]) := by
  obtain ⟨bytes, text, e, hread, he, ⟨w, rest, -, -, hhash⟩, -, -⟩ :=
    outcome_of_race true wellFormed_empty alongside_raceTrace
  rw [eq_of_read_raceTrace (hread w).1] at hhash
  exact ⟨alongside_raceTrace, e, he, hhash⟩

theorem key_raceMemory : raceMemory.key (Path.text sampleName) = 1 := by
  have hfirst : (({} : Memory).upsert sampleDocument 0).2.key (Path.text sampleName) = 1 :=
    key_upsert wellFormed_empty
  have hsecond : writtenTwice.key (Path.text sampleName) = 1 :=
    (key_upsert wellFormed_empty.upsert).trans hfirst
  exact hsecond

theorem rows_raceMemory : raceMemory.rows 1 = [sampleChunk.row, sampleChunk.row] := by
  rw [raceMemory, rows_insertChunk, rows_insertChunk, rows, writtenTwice, chunksOf_upsert,
    chunksOf_upsert]
  rfl

/-- **Runs on one file at once can leave what no run alone would:** here, every chunk twice. -/
theorem not_always_one_of_race :
    ¬ ∀ (gs : Bool → Ingestor) (ns : Bool → Nat) (path : Path) (s s' : Memory)
      (ts : List (Bool × Exchange Work.interface)), s.WellFormed →
      Alongside (Serves fun _ => False) (fun i => ((gs i).processFile path).run) s ts
        (fun i => .ok (.processed (ns i))) s' →
      ∃ i bytes text e, .read path (.ok bytes) ∈ own i ts ∧ decode? bytes = some text ∧
        s'.document? (Path.text path) = some e ∧
        s'.rows e.id = (chunks (gs i).limits (String.ofList text)).map Chunk.row ∧
        e.metadata.fileHash = some (Sha256.hexDigest bytes) := by
  intro hone
  obtain ⟨i, bytes, text, e, hread, htext, he, hrows, -⟩ :=
    hone _ _ _ _ _ _ wellFormed_empty alongside_raceTrace
  rw [eq_of_read_raceTrace hread, decode?_sampleWorld] at htext
  obtain rfl := Option.some.inj htext
  rw [← key_of_document? he, key_raceMemory, rows_raceMemory, chunks_sampleWorld] at hrows
  cases hrows

end Ingestor

end MarkdownIndex
