import MarkdownIndex.Proofs.Decimal.Order
import MarkdownIndex.Search.Rank

/-!
# Ranking: best score first

A ranking is sorted by insertion, with comparisons that say nothing of scores that are no numbers.
For numbers it is the one list that has the chunks in their order.

* `find?_key_eq_some_iff`, `find?_key_eq_of_perm` — what is found by its key, if no two items have
  the same.
* `perm_rank` — a ranking holds the chunks that are ranked; `mem_top` — a limit that is no less than
  their number leaves none out.
* `Ahead` — which of two chunks is the better one; `standing` — its place in a line of all chunks.
* `Ranking` — chunks of a kind, best first and each once; `Ranking.unique` — there is but one.
* `ranking_rank` — chunks of different keys are ranked so.
* `Ranks` — what a search with a limit is like that answers the first of such a ranking.
-/

namespace MarkdownIndex

open Decimal

namespace Search

/-! ## Items with a key -/

section Keys

variable {α : Type} {key : α → Int} {as bs : List α} {a : α} {id : Int}

theorem find?_key_cons :
    (a :: as).find? (key · == id) = if key a = id then some a else as.find? (key · == id) := by
  rw [List.find?_cons]
  split_ifs with hid
  · rw [beq_iff_eq.mpr hid]
  · rw [beq_eq_false_iff_ne.mpr hid]

theorem find?_key_eq_some_iff (h : (as.map key).Nodup) :
    as.find? (key · == id) = some a ↔ a ∈ as ∧ key a = id := by
  constructor
  · intro hfind
    have hid := List.find?_some hfind
    exact ⟨List.mem_of_find?_eq_some hfind, eq_of_beq hid⟩
  · rintro ⟨ha, rfl⟩
    rcases hfind : as.find? (key · == key a) with _ | b
    · exact absurd (beq_self_eq_true (key a)) (List.find?_eq_none.mp hfind a ha)
    · have hid := List.find?_some hfind
      have hb := List.mem_of_find?_eq_some hfind
      exact congrArg some (List.inj_on_of_nodup_map h hb ha (eq_of_beq hid))

/-- Without repeated keys it does not matter where an item is. -/
theorem find?_key_eq_of_perm (h : (as.map key).Nodup) (hperm : bs.Perm as) :
    bs.find? (key · == id) = as.find? (key · == id) := by
  refine Option.ext fun a => ?_
  rw [find?_key_eq_some_iff h, find?_key_eq_some_iff ((hperm.map key).nodup_iff.mpr h),
    hperm.mem_iff]

theorem isSome_find?_key : (as.find? (key · == id)).isSome = true ↔ id ∈ as.map key := by
  rw [List.find?_isSome, List.mem_map]
  simp only [beq_iff_eq]

end Keys

/-! ## What is ranked -/

theorem perm_insertFromEnd (c : ScoredChunk) (ds : List ScoredChunk) :
    (insertFromEnd c ds).Perm (c :: ds) := by
  induction ds with
  | nil => exact List.Perm.refl [c]
  | cons d ds ih =>
    rw [insertFromEnd]
    split
    · exact (ih.cons d).trans (List.Perm.swap c d ds)
    · exact List.Perm.refl _

/-- **A ranking holds the chunks that are ranked,** each as often as before. -/
theorem perm_rank (cs : List ScoredChunk) : (rank cs).Perm cs := by
  have hfold : ∀ ranked : List ScoredChunk,
      (cs.foldl (fun ranked c => insertFromEnd c ranked) ranked).Perm (cs ++ ranked) := by
    induction cs with
    | nil => exact List.Perm.refl
    | cons c cs ih =>
      intro ranked
      refine (ih (insertFromEnd c ranked)).trans ?_
      exact ((perm_insertFromEnd c ranked).append_left cs).trans List.perm_middle
  have hall := hfold []
  rw [List.append_nil] at hall
  exact (List.reverse_perm _).trans hall

/-- A limit that is no less than the number of chunks leaves none out. -/
theorem mem_top {limit : Int} {cs : List ScoredChunk} (h : cs.length ≤ limit) {c : ScoredChunk} :
    c ∈ top limit cs ↔ c ∈ cs := by
  have hlength : (rank cs).length ≤ limit.toNat := by
    rw [(perm_rank cs).length_eq]
    omega
  rw [top, List.take_of_length_le hlength, (perm_rank cs).mem_iff]

/-- A limit puts nothing in. -/
theorem mem_of_mem_top {limit : Int} {cs : List ScoredChunk} {c : ScoredChunk}
    (h : c ∈ top limit cs) : c ∈ cs :=
  (perm_rank cs).mem_iff.mp (List.mem_of_mem_take h)

end Search

/-! ## The order of chunks -/

namespace ScoredChunk

/-- The first chunk has the greater score, or of equal scores the lesser key. -/
def Ahead (a b : ScoredChunk) : Prop :=
  b.score < a.score ∨ (a.score == b.score) = true ∧ a.chunkId < b.chunkId

/-- The place of a chunk in a line of all chunks, best first. -/
def standing (c : ScoredChunk) : Int ×ₗ Int := toLex (-place c.score, c.chunkId)

variable {a b : ScoredChunk}

theorem standing_lt_iff : a.standing < b.standing ↔
    place b.score < place a.score ∨ place a.score = place b.score ∧ a.chunkId < b.chunkId := by
  rw [standing, standing, Prod.Lex.toLex_lt_toLex, Int.neg_lt_neg_iff, Int.neg_inj]

theorem chunkId_eq_of_standing (h : a.standing = b.standing) : a.chunkId = b.chunkId :=
  congrArg (fun p => (ofLex p).2) h

theorem ahead_iff (ha : a.score.isNaN = false) (hb : b.score.isNaN = false) :
    a.Ahead b ↔ a.standing < b.standing := by
  rw [Ahead, lt_iff hb ha, beq_iff ha hb, standing_lt_iff]

theorem precedes_iff (ha : a.score.isNaN = false) (hb : b.score.isNaN = false) :
    a.precedes b = true ↔ a.standing < b.standing := by
  rw [precedes, standing_lt_iff]
  split_ifs with hgreater hless
  · exact iff_of_true rfl (Or.inl ((lt_iff hb ha).mp hgreater))
  · rw [lt_iff ha hb] at hless
    refine iff_of_false not_false ?_
    omega
  · rw [lt_iff hb ha] at hgreater
    rw [lt_iff ha hb] at hless
    rw [decide_eq_true_iff]
    omega

end ScoredChunk

/-! ## Rankings -/

namespace Search

open ScoredChunk

/-- The chunks of a kind, best first and each key once. -/
structure Ranking (P : ScoredChunk → Prop) (ranked : List ScoredChunk) : Prop where
  /-- they are all there, and no others -/
  mem_iff : ∀ c, c ∈ ranked ↔ P c
  /-- none is there twice -/
  nodup : (ranked.map (·.chunkId)).Nodup
  /-- the better chunk is ahead -/
  ordered : ranked.Pairwise Ahead

/-- A search that answers the first of all its hits, as many as its limit says: best first, and each
key once. -/
structure Ranks (P : ScoredChunk → Prop) (search : Int → List ScoredChunk) : Prop where
  /-- there is a ranking of all hits of which every limit takes the first -/
  takes : ∃ ranked, Ranking P ranked ∧ ∀ limit, search limit = ranked.take limit.toNat
  /-- a greater limit goes on from where a lesser one stops -/
  grows : ∀ ⦃least most : Int⦄, least ≤ most → search least <+: search most

variable {P : ScoredChunk → Prop} {cs ds ranked : List ScoredChunk} {c d : ScoredChunk}

/-- The chunks have numbers for scores. -/
def Numbers (cs : List ScoredChunk) : Prop := ∀ c ∈ cs, c.score.isNaN = false

/-- What is inserted keeps the order, if no key is there twice. -/
theorem pairwise_insertFromEnd (hc : c.score.isNaN = false) (hds : Numbers ds)
    (hne : ∀ d ∈ ds, d.chunkId ≠ c.chunkId)
    (h : ds.Pairwise fun a b => b.standing < a.standing) :
    (insertFromEnd c ds).Pairwise fun a b => b.standing < a.standing := by
  induction ds with
  | nil => exact List.pairwise_singleton _ c
  | cons d ds ih =>
    obtain ⟨hd, hrest⟩ := List.pairwise_cons.mp h
    have hnumd : d.score.isNaN = false := hds d List.mem_cons_self
    rw [insertFromEnd]
    split
    · rename_i hcd
      rw [precedes_iff hc hnumd] at hcd
      have hinsert := ih (fun e he => hds e (List.mem_cons_of_mem d he))
        (fun e he => hne e (List.mem_cons_of_mem d he)) hrest
      refine List.pairwise_cons.mpr ⟨fun e he => ?_, hinsert⟩
      rcases List.mem_cons.mp ((perm_insertFromEnd c ds).mem_iff.mp he) with rfl | he
      · exact hcd
      · exact hd e he
    · rename_i hcd
      rw [precedes_iff hc hnumd, not_lt] at hcd
      have hdc : d.standing < c.standing :=
        lt_of_le_of_ne hcd fun heq => hne d List.mem_cons_self (chunkId_eq_of_standing heq)
      refine List.pairwise_cons.mpr ⟨fun e he => ?_, h⟩
      rcases List.mem_cons.mp he with rfl | he
      · exact hdc
      · exact (hd e he).trans hdc

/-- **A ranking is in order,** if no key is there twice. -/
theorem pairwise_rank (hnum : Numbers cs) (hids : (cs.map (·.chunkId)).Nodup) :
    (rank cs).Pairwise fun a b => a.standing < b.standing := by
  have hfold : ∀ ranked : List ScoredChunk, Numbers (cs ++ ranked) →
      ((cs ++ ranked).map (·.chunkId)).Nodup →
      (ranked.Pairwise fun a b => b.standing < a.standing) →
      (cs.foldl (fun ranked c => insertFromEnd c ranked) ranked).Pairwise
        fun a b => b.standing < a.standing := by
    clear hnum hids
    induction cs with
    | nil => exact fun _ _ _ h => h
    | cons c cs ih =>
      intro ranked hnum hids h
      have hperm : (cs ++ insertFromEnd c ranked).Perm (c :: cs ++ ranked) :=
        ((perm_insertFromEnd c ranked).append_left cs).trans List.perm_middle
      refine ih _ (fun d hd => hnum d (hperm.mem_iff.mp hd))
        ((hperm.map _).nodup_iff.mpr hids) ?_
      refine pairwise_insertFromEnd (hnum c List.mem_cons_self)
        (fun d hd => hnum d (List.mem_append_right _ hd)) (fun d hd heq => ?_) h
      rw [List.cons_append, List.map_cons, List.nodup_cons] at hids
      refine hids.1 (heq ▸ List.mem_map_of_mem ?_)
      exact List.mem_append_right cs hd
  have hall := hfold [] (by rwa [List.append_nil]) (by rwa [List.append_nil]) List.Pairwise.nil
  exact List.pairwise_reverse.mpr hall

/-- **Chunks of different keys are ranked best first.** -/
theorem ranking_rank (hnum : Numbers cs) (hids : (cs.map (·.chunkId)).Nodup) :
    Ranking (· ∈ cs) (rank cs) where
  mem_iff := fun _ => (perm_rank cs).mem_iff
  nodup := ((perm_rank cs).map _).nodup_iff.mpr hids
  ordered := by
    refine (pairwise_rank hnum hids).imp_of_mem fun ha hb hlt => ?_
    rw [(perm_rank cs).mem_iff] at ha hb
    exact (ahead_iff (hnum _ ha) (hnum _ hb)).mpr hlt

theorem Ranking.congr {Q : ScoredChunk → Prop} (h : Ranking P ranked) (hPQ : ∀ c, P c ↔ Q c) :
    Ranking Q ranked :=
  ⟨fun c => (h.mem_iff c).trans (hPQ c), h.nodup, h.ordered⟩

/-- **There is but one ranking of the chunks of a kind.** -/
theorem Ranking.unique {other : List ScoredChunk} (h : Ranking P ranked) (h' : Ranking P other)
    (hnum : ∀ c, P c → c.score.isNaN = false) : ranked = other := by
  have hperm : ranked.Perm other :=
    (List.perm_ext_iff_of_nodup h.nodup.of_map h'.nodup.of_map).mpr fun c =>
      (h.mem_iff c).trans (h'.mem_iff c).symm
  refine List.Perm.eq_of_pairwise (fun a b ha hb hab hba => ?_) h.ordered h'.ordered hperm
  have hnuma := hnum a ((h.mem_iff a).mp ha)
  have hnumb := hnum b ((h'.mem_iff b).mp hb)
  rw [ahead_iff hnuma hnumb] at hab
  rw [ahead_iff hnumb hnuma] at hba
  exact absurd hba hab.asymm

/-- A ranking does not depend on the order of the chunks before. -/
theorem rank_eq_of_perm (hnum : Numbers cs) (hids : (cs.map (·.chunkId)).Nodup)
    (h : ds.Perm cs) : rank ds = rank cs := by
  have hother : Ranking (· ∈ ds) (rank ds) :=
    ranking_rank (fun d hd => hnum d (h.mem_iff.mp hd)) ((h.map _).nodup_iff.mpr hids)
  exact (hother.congr fun _ => h.mem_iff).unique (ranking_rank hnum hids) hnum

/-- A search that takes the first of what it ranks. -/
theorem ranks_top (hP : ∀ c, c ∈ cs ↔ P c) (hids : (cs.map (·.chunkId)).Nodup)
    (hnum : ∀ c, P c → c.score.isNaN = false) : Ranks P fun limit => top limit cs where
  takes := by
    refine ⟨rank cs, ?_, fun _ => rfl⟩
    exact (ranking_rank (fun c hc => hnum c ((hP c).mp hc)) hids).congr hP
  grows := fun _ _ hle => List.take_prefix_take_left (Int.toNat_le_toNat hle)

end Search

end MarkdownIndex
