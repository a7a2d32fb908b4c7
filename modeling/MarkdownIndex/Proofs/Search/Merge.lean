import MarkdownIndex.Proofs.Decimal.Rounding
import MarkdownIndex.Proofs.Search.Rank
import MarkdownIndex.Search.Merge

/-!
# Hybrid ranking: an outer join, ranked

* `firstWith`, `lastWith`, `scoreIn` — what a search has for a key.
* `joined` — the chunk with a key as both searches together show it.
* `candidate?_alter` — candidates by their keys after one of them has changed;
  `candidate?_join`, `mem_join_iff` — the candidates of two searches are all their keys, joined.
* `place_score_le` — what is no worse on either side has no lesser score.
* `Joins`, `exists_joins` — the main result: both searches are joined, ranked and cut, whatever the
  order of the candidates.
-/

namespace MarkdownIndex.Search

open Decimal ScoredChunk

/-! ## Two searches, joined -/

/-- The first chunk with a key. -/
def firstWith (id : Int) (cs : List ScoredChunk) : Option ScoredChunk :=
  cs.find? (·.chunkId == id)

/-- The last chunk with a key. -/
def lastWith (id : Int) (cs : List ScoredChunk) : Option ScoredChunk :=
  cs.reverse.find? (·.chunkId == id)

/-- The score of the last chunk with a key; zero if there is none. -/
def scoreIn (id : Int) (cs : List ScoredChunk) : Float := ((lastWith id cs).map (·.score)).getD 0

/-- The chunk with a key as both searches together show it: the last of the semantic one, else the
first of the full-text one, with seven tenths of its score there and three tenths of its score
here. -/
def joined (near matching : List ScoredChunk) (id : Int) : Option ScoredChunk :=
  ((lastWith id near).or (firstWith id matching)).map fun c =>
    { c with score := semanticWeight * scoreIn id near + fulltextWeight * scoreIn id matching }

variable {near matching near' matching' ranked : List ScoredChunk} {hit a b c : ScoredChunk}
variable {cs : List Candidate} {d new : Candidate} {change : Candidate → Candidate} {id k : Int}

theorem lastWith_concat : lastWith id (near ++ [c]) =
    if c.chunkId = id then some c else lastWith id near := by
  rw [lastWith, List.reverse_append, List.reverse_singleton, List.singleton_append,
    find?_key_cons, lastWith]

theorem firstWith_concat : firstWith id (near ++ [c]) =
    (firstWith id near).or (if c.chunkId = id then some c else none) := by
  rw [firstWith, List.find?_append, List.find?_singleton]
  simp only [firstWith, beq_iff_eq]

theorem isSome_lastWith : (lastWith id near).isSome = true ↔ id ∈ near.map (·.chunkId) := by
  rw [lastWith, isSome_find?_key, List.map_reverse, List.mem_reverse]

theorem chunkId_of_joined (h : joined near matching id = some hit) : hit.chunkId = id := by
  obtain ⟨c, hc, rfl⟩ := Option.map_eq_some_iff.mp h
  rcases Option.or_eq_some_iff.mp hc with hc | ⟨-, hc⟩
  · have hid := List.find?_some hc
    exact eq_of_beq hid
  · have hid := List.find?_some hc
    exact eq_of_beq hid

theorem score_of_joined (h : joined near matching id = some hit) :
    hit.score = semanticWeight * scoreIn id near + fulltextWeight * scoreIn id matching := by
  obtain ⟨c, -, rfl⟩ := Option.map_eq_some_iff.mp h
  rfl

theorem isSome_joined : (joined near matching id).isSome = true ↔
    id ∈ near.map (·.chunkId) ∨ id ∈ matching.map (·.chunkId) := by
  rw [joined, Option.isSome_map, Option.isSome_or, Bool.or_eq_true, isSome_lastWith, firstWith,
    isSome_find?_key]

/-- Without repeated keys the order of the chunks does not matter. -/
theorem joined_eq_of_perm (hnear : (near.map (·.chunkId)).Nodup)
    (hmatching : (matching.map (·.chunkId)).Nodup) (hpn : near'.Perm near)
    (hpm : matching'.Perm matching) : joined near' matching' = joined near matching := by
  have hlast : ∀ {cs ds : List ScoredChunk} (id : Int), (cs.map (·.chunkId)).Nodup →
      ds.Perm cs → lastWith id ds = lastWith id cs := by
    intro cs ds id h hperm
    refine find?_key_eq_of_perm ?_ ?_
    · rwa [List.map_reverse, List.nodup_reverse]
    · exact (List.reverse_perm ds).trans (hperm.trans (List.reverse_perm cs).symm)
  funext id
  rw [joined, joined, scoreIn, scoreIn, scoreIn, scoreIn, hlast id hnear hpn,
    hlast id hmatching hpm, firstWith, firstWith, find?_key_eq_of_perm hmatching hpm]

/-! ## Candidates -/

/-- The candidate with a key. -/
def candidate? (cs : List Candidate) (id : Int) : Option Candidate :=
  cs.find? (·.chunk.chunkId == id)

/-- No two candidates have the same key. -/
def Distinct (cs : List Candidate) : Prop := (cs.map (·.chunk.chunkId)).Nodup

theorem candidate?_cons :
    candidate? (d :: cs) id = if d.chunk.chunkId = id then some d else candidate? cs id :=
  find?_key_cons

/-- Only the candidate of the key is another. -/
theorem candidate?_alter (hchange : ∀ d, d.chunk.chunkId = k → (change d).chunk.chunkId = k)
    (hnew : new.chunk.chunkId = k) :
    candidate? (alter k change new cs) id =
      if k = id then some ((candidate? cs k).elim new change) else candidate? cs id := by
  induction cs with
  | nil =>
    rw [alter, candidate?_cons, hnew]
    rfl
  | cons d cs ih =>
    rw [alter]
    by_cases hd : d.chunk.chunkId = k
    · rw [if_pos hd, candidate?_cons, candidate?_cons, candidate?_cons, hchange d hd, hd,
        if_pos rfl]
      split_ifs <;> rfl
    · rw [if_neg hd, candidate?_cons, candidate?_cons, candidate?_cons, ih, if_neg hd]
      split_ifs with hid hk
      · exact absurd (hid.trans hk.symm) hd
      · rfl
      · rfl
      · rfl

theorem Distinct.alter (hchange : ∀ d, d.chunk.chunkId = k → (change d).chunk.chunkId = k)
    (hnew : new.chunk.chunkId = k) (h : Distinct cs) : Distinct (alter k change new cs) := by
  induction cs with
  | nil => exact List.nodup_singleton _
  | cons d cs ih =>
    rw [Distinct, List.map_cons, List.nodup_cons] at h
    rw [Search.alter]
    split_ifs with hd
    · rw [Distinct, List.map_cons, hchange d hd, ← hd, List.nodup_cons]
      exact h
    · rw [Distinct, List.map_cons, List.nodup_cons]
      refine ⟨fun hmem => h.1 ?_, ih h.2⟩
      have hsame : candidate? (Search.alter k change new cs) d.chunk.chunkId =
          candidate? cs d.chunk.chunkId :=
        (candidate?_alter hchange hnew).trans (if_neg (Ne.symm hd))
      rw [← isSome_find?_key] at hmem ⊢
      rwa [← candidate?, ← hsame]

theorem candidate?_addSemantic : candidate? (addSemantic cs c) id =
    if c.chunkId = id then some ⟨c, c.score, 0⟩ else candidate? cs id := by
  rw [addSemantic, candidate?_alter]
  · cases candidate? cs c.chunkId <;> rfl
  · exact fun _ _ => rfl
  · rfl

theorem candidate?_addFulltext : candidate? (addFulltext cs c) id =
    if c.chunkId = id then some { (candidate? cs id).getD ⟨c, 0, 0⟩ with fulltext := c.score }
    else candidate? cs id := by
  rw [addFulltext, candidate?_alter]
  · split_ifs with hid
    · rw [← hid]
      cases candidate? cs c.chunkId <;> rfl
    · rfl
  · exact fun _ hd => hd
  · rfl

/-- The candidates of a semantic search are its keys, each with the last chunk that has it. -/
theorem candidate?_semantic :
    candidate? (near.foldl addSemantic []) id =
      (lastWith id near).map fun c => ⟨c, c.score, 0⟩ := by
  induction near using List.reverseRecOn with
  | nil => rfl
  | append_singleton cs c ih =>
    rw [List.foldl_concat, candidate?_addSemantic, lastWith_concat, ih]
    split_ifs <;> rfl

/-- A full-text search adds what is missing, and its scores. -/
theorem candidate?_fulltext :
    candidate? (matching.foldl addFulltext cs) id =
      ((candidate? cs id).or ((firstWith id matching).map fun c => ⟨c, 0, 0⟩)).map fun d =>
        { d with fulltext := ((lastWith id matching).map (·.score)).getD d.fulltext } := by
  induction matching using List.reverseRecOn with
  | nil =>
    rw [List.foldl_nil]
    cases candidate? cs id <;> rfl
  | append_singleton ms c ih =>
    rw [List.foldl_concat, candidate?_addFulltext, lastWith_concat, firstWith_concat, ih]
    split_ifs with hid
    · cases candidate? cs id with
      | some d => rfl
      | none => cases firstWith id ms <;> rfl
    · rw [Option.or_none]

theorem candidate?_join :
    candidate? (join near matching) id = ((lastWith id near).or (firstWith id matching)).map
      fun c => ⟨c, scoreIn id near, scoreIn id matching⟩ := by
  rw [join, candidate?_fulltext, candidate?_semantic, scoreIn, scoreIn]
  cases lastWith id near with
  | some c => rfl
  | none => cases firstWith id matching <;> rfl

theorem distinct_join : Distinct (join near matching) := by
  have hsemantic : ∀ cs c, Distinct cs → Distinct (addSemantic cs c) :=
    fun _ _ h => h.alter (fun _ _ => rfl) rfl
  have hfulltext : ∀ cs c, Distinct cs → Distinct (addFulltext cs c) :=
    fun _ _ h => h.alter (fun _ hd => hd) rfl
  have hnear : Distinct (near.foldl addSemantic []) :=
    List.foldlRecOn near addSemantic List.nodup_nil fun cs h c _ => hsemantic cs c h
  exact List.foldlRecOn matching addFulltext hnear fun cs h c _ => hfulltext cs c h

theorem nodup_scored_join :
    (((join near matching).map Candidate.scored).map (·.chunkId)).Nodup := by
  rw [List.map_map]
  exact distinct_join

/-- **The candidates of two searches are all their keys, joined.** -/
theorem mem_join_iff :
    hit ∈ (join near matching).map Candidate.scored ↔
      joined near matching hit.chunkId = some hit := by
  have hjoined : ∀ id, joined near matching id =
      (candidate? (join near matching) id).map Candidate.scored := by
    intro id
    rw [candidate?_join, Option.map_map]
    rfl
  rw [hjoined, List.mem_map, Option.map_eq_some_iff]
  refine exists_congr fun d => and_congr_left ?_
  rintro rfl
  exact ((find?_key_eq_some_iff distinct_join).trans (and_iff_left rfl)).symm

/-! ## Better on both sides -/

theorem unpack_semanticWeight : semanticWeight.toModel.unpack =
    .finite .positive 6305039478318694 (-53) (by decide) := rfl

theorem unpack_fulltextWeight : fulltextWeight.toModel.unpack =
    .finite .positive 5404319552844595 (-54) (by decide) := rfl

/-- **What is no worse on either side has no lesser score.** -/
theorem place_score_le (ha : joined near matching a.chunkId = some a)
    (hb : joined near matching b.chunkId = some b) (hnuma : a.score.isNaN = false)
    (hnumb : b.score.isNaN = false) (hnear : scoreIn a.chunkId near ≤ scoreIn b.chunkId near)
    (hmatching : scoreIn a.chunkId matching ≤ scoreIn b.chunkId matching) :
    place a.score ≤ place b.score := by
  obtain ⟨hna, hnb⟩ := isNaN_of_le hnear
  obtain ⟨hma, hmb⟩ := isNaN_of_le hmatching
  rw [le_iff hna hnb] at hnear
  rw [le_iff hma hmb] at hmatching
  rw [score_of_joined ha] at hnuma ⊢
  rw [score_of_joined hb] at hnumb ⊢
  refine place_add_mono hnuma hnumb ?_ ?_
  · exact place_mul_mono (by decide) unpack_semanticWeight (by decide) (by decide) hna hnb hnear
  · exact place_mul_mono (by decide) unpack_fulltextWeight (by decide) (by decide) hma hmb hmatching

/-! ## The ranking -/

/-- All chunks of two searches, joined and ranked. -/
structure Joins (near matching ranked : List ScoredChunk) : Prop where
  /-- they are joined on their keys, best first -/
  ranking : Ranking (fun hit => joined near matching hit.chunkId = some hit) ranked
  /-- the keys are those of both searches -/
  keys : ∀ id, id ∈ ranked.map (·.chunkId) ↔
    id ∈ near.map (·.chunkId) ∨ id ∈ matching.map (·.chunkId)
  /-- only its key brings a chunk ahead of one that is no worse on either side -/
  dominated : ranked.Pairwise fun a b =>
    scoreIn a.chunkId near ≤ scoreIn b.chunkId near →
      scoreIn a.chunkId matching ≤ scoreIn b.chunkId matching →
        (a.score == b.score) = true ∧ a.chunkId < b.chunkId

theorem joins_of_ranking (hnum : ∀ hit, joined near matching hit.chunkId = some hit →
      hit.score.isNaN = false)
    (h : Ranking (fun hit => joined near matching hit.chunkId = some hit) ranked) :
    Joins near matching ranked where
  ranking := h
  keys := by
    intro id
    rw [List.mem_map, ← isSome_joined, Option.isSome_iff_exists]
    refine exists_congr fun hit => ?_
    rw [h.mem_iff]
    constructor
    · rintro ⟨hhit, rfl⟩
      exact hhit
    · intro hhit
      obtain rfl := chunkId_of_joined hhit
      exact ⟨hhit, rfl⟩
  dominated := by
    refine h.ordered.imp_of_mem fun {a b} ha hb hab hnear hmatching => ?_
    rw [h.mem_iff] at ha hb
    have hnuma := hnum a ha
    have hnumb := hnum b hb
    have hle := place_score_le ha hb hnuma hnumb hnear hmatching
    rw [ahead_iff hnuma hnumb, standing_lt_iff] at hab
    rw [beq_iff hnuma hnumb]
    omega

/-- **Two searches are joined, ranked and cut.** With numbers for scores there is one ranking of all
their chunks, and a search for both answers the first of it, as many as the limit says. Neither the
order in which the candidates come up nor, if no key is repeated, that of the chunks before makes a
difference. -/
theorem exists_joins (hnum : ∀ hit, joined near matching hit.chunkId = some hit →
      hit.score.isNaN = false) :
    ∃ ranked, Joins near matching ranked ∧
      (∀ limit, merge near matching limit = ranked.take limit.toNat) ∧
      (∀ cs : List Candidate, cs.Perm (join near matching) → ∀ limit,
        top limit (cs.map Candidate.scored) = merge near matching limit) ∧
      ((near.map (·.chunkId)).Nodup → (matching.map (·.chunkId)).Nodup →
        ∀ near' matching' : List ScoredChunk, near'.Perm near → matching'.Perm matching → ∀ limit,
          merge near' matching' limit = merge near matching limit) := by
  have hnumbers : Numbers ((join near matching).map Candidate.scored) :=
    fun hit hhit => hnum hit (mem_join_iff.mp hhit)
  have hranking := ranking_rank hnumbers nodup_scored_join
  refine ⟨_, joins_of_ranking hnum (hranking.congr fun _ => mem_join_iff), fun _ => rfl,
    fun cs hperm limit => ?_, fun hnear hmatching near' matching' hpn hpm limit => ?_⟩
  · rw [merge, top, top, rank_eq_of_perm hnumbers nodup_scored_join (hperm.map _)]
  · have hother : ∀ hit, hit ∈ (join near' matching').map Candidate.scored ↔
        hit ∈ (join near matching).map Candidate.scored := by
      intro hit
      rw [mem_join_iff, mem_join_iff, joined_eq_of_perm hnear hmatching hpn hpm]
    have hperm : ((join near' matching').map Candidate.scored).Perm
        ((join near matching).map Candidate.scored) :=
      (List.perm_ext_iff_of_nodup nodup_scored_join.of_map nodup_scored_join.of_map).mpr hother
    rw [merge, merge, top, top, rank_eq_of_perm hnumbers nodup_scored_join hperm]

/-- What a semantic search finds: two chunks. -/
def sampleNear : List ScoredChunk :=
  [⟨1, 1, "a.md", "A", "a", {}, 0.5⟩, ⟨2, 1, "a.md", "A", "b", {}, 0.25⟩]

/-- What a full-text search finds: the second of them. -/
def sampleMatching : List ScoredChunk := [⟨2, 1, "a.md", "A", "b", {}, 1⟩]

theorem exists_joins_sample : ∃ ranked, Joins sampleNear sampleMatching ranked ∧
    ∀ limit, merge sampleNear sampleMatching limit = ranked.take limit.toNat := by
  have hnum : ∀ hit, joined sampleNear sampleMatching hit.chunkId = some hit →
      hit.score.isNaN = false := by
    intro hit hhit
    have hkey : hit.chunkId = 1 ∨ hit.chunkId = 2 := by
      have hmem := isSome_joined.mp (Option.isSome_of_eq_some hhit)
      simpa [sampleNear, sampleMatching] using hmem
    rw [score_of_joined hhit]
    rcases hkey with hkey | hkey <;> rw [hkey] <;> decide +kernel
  obtain ⟨ranked, hjoins, hmerge, -⟩ := exists_joins hnum
  exact ⟨ranked, hjoins, hmerge⟩

end MarkdownIndex.Search
