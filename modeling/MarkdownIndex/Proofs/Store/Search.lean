import MarkdownIndex.Proofs.Search.Rank
import MarkdownIndex.Proofs.Store.Memory
import MarkdownIndex.Proofs.Text.Token

/-!
# Searches of the store in memory: what is found

* `find?_id` — a chunk is shown with the document that has the key it carries.
* `Presents`, `Finds` — a hit with the document it is shown with, and the hits of a store;
  `WellFormed.presents` — every hit is shown with its own document, or with none.
* `similarity?_eq_some_iff`, `relevance?_eq_some_iff` — which chunks are hits, and with what score.
* `mem_fulltextSearch`, `exists_mem_fulltextSearch` — a query finds every chunk that has all its
  tokens, and a word every chunk it is a token of.
* `Near`, `Matching` — all hits of a search; `WellFormed.ranks` — a search answers the best of them.
-/

namespace MarkdownIndex

/-! ## Full-text search -/

namespace Memory

open Text

variable {s : Memory}

/-- A key leads to the document that has it. -/
theorem WellFormed.find?_id (hs : s.WellFormed) {d : StoredDocument} (hd : d ∈ s.documents) :
    s.documents.find? (·.id == d.id) = some d :=
  (Search.find?_key_eq_some_iff hs.nodup_ids).mpr ⟨hd, rfl⟩

/-- What is scored is shown with its score. -/
theorem mem_scored {score : StoredChunk → Option Float} {hit : ScoredChunk} :
    hit ∈ (s.chunks.filterMap fun c => (score c).map (s.scored c)) ↔
      ∃ c ∈ s.chunks, ∃ x, score c = some x ∧ hit = s.scored c x := by
  simp only [List.mem_filterMap, Option.map_eq_some_iff, eq_comm (a := hit)]

/-- How often the words of a query occur among words, once for each word of the query. -/
def occurrences (words terms : List (List Char)) : Nat := (terms.map fun t => words.count t).sum

/-- How much of a text the words of a query make up. -/
def relevance (terms : List (List Char)) (content : String) : Float :=
  (occurrences (tokens content.toList) terms).toUInt64.toFloat /
    (tokens content.toList).length.toUInt64.toFloat

theorem occurrences?_eq_some_iff {words terms : List (List Char)} {n : Nat} :
    occurrences? words terms = some n ↔
      (∀ t ∈ terms, t ∈ words) ∧ n = occurrences words terms := by
  induction terms generalizing n with
  | nil => simp [occurrences?, occurrences, eq_comm]
  | cons t ts ih =>
    rw [occurrences?, List.forall_mem_cons]
    split_ifs with hcount
    · have hnot : t ∉ words := List.count_eq_zero.mp hcount
      exact iff_of_false (fun h => nomatch h) fun h => hnot h.1.1
    · have hmem : t ∈ words := not_not.mp fun hnot => hcount (List.count_eq_zero.mpr hnot)
      rw [Option.map_eq_some_iff]
      constructor
      · rintro ⟨k, hk, rfl⟩
        obtain ⟨hall, rfl⟩ := ih.mp hk
        exact ⟨⟨hmem, hall⟩, rfl⟩
      · rintro ⟨⟨-, hall⟩, rfl⟩
        exact ⟨_, ih.mpr ⟨hall, rfl⟩, rfl⟩

/-- A text is relevant to words that are all among its tokens. -/
theorem relevance?_eq_some_iff {terms : List (List Char)} {content : String} {score : Float} :
    relevance? terms content = some score ↔
      (∀ t ∈ terms, t ∈ tokens content.toList) ∧ score = relevance terms content := by
  rw [relevance?, Option.map_eq_some_iff]
  constructor
  · rintro ⟨n, hn, rfl⟩
    obtain ⟨hall, rfl⟩ := occurrences?_eq_some_iff.mp hn
    exact ⟨hall, rfl⟩
  · rintro ⟨hall, rfl⟩
    exact ⟨_, occurrences?_eq_some_iff.mpr ⟨hall, rfl⟩, rfl⟩

/-- **A query finds every chunk that has all its tokens,** if it has any and the limit leaves no
chunk out. -/
theorem mem_fulltextSearch {c : StoredChunk} (hc : c ∈ s.chunks) {query : String}
    (hne : tokens query.toList ≠ [])
    (htokens : ∀ t ∈ tokens query.toList, t ∈ tokens c.content.toList) {limit : Int}
    (hlimit : s.chunks.length ≤ limit) :
    s.scored c (relevance (tokens query.toList) c.content) ∈ s.fulltextSearch query limit := by
  rw [fulltextSearch, if_neg (mt List.isEmpty_iff.mp hne)]
  refine (Search.mem_top (Int.le_trans ?_ hlimit)).mpr ?_
  · exact Int.ofNat_le.mpr (List.length_filterMap_le _ _)
  · have hscore := relevance?_eq_some_iff.mpr ⟨htokens, rfl⟩
    exact mem_scored.mpr ⟨c, hc, _, hscore, rfl⟩

/-- **A run of letters and digits finds every chunk that has it among its tokens,** with the path
and the title of the document that the chunk belongs to. -/
theorem exists_mem_fulltextSearch (hs : s.WellFormed) {d : StoredDocument} (hd : d ∈ s.documents)
    {c : StoredChunk} (hc : c ∈ s.chunksOf d.id) {text t : List Char}
    (ht : t ∈ alphanumericRuns text) (htoken : lowerText t ∈ tokens c.content.toList) {limit : Int}
    (hlimit : s.chunks.length ≤ limit) :
    ∃ hit ∈ s.fulltextSearch (String.ofList t) limit, hit.documentId = d.id ∧ hit.path = d.path ∧
      hit.title = d.title ∧ hit.content = c.content := by
  obtain ⟨hmem, hid⟩ := List.mem_filter.mp hc
  have hfind : s.documents.find? (·.id == c.documentId) = some d := by
    rw [eq_of_beq hid, hs.find?_id hd]
  have htokens : tokens (String.ofList t).toList = [lowerText t] := by
    rw [String.toList_ofList, tokens_run ht]
  refine ⟨_, mem_fulltextSearch hmem ?_ ?_ hlimit, eq_of_beq hid, ?_, ?_, rfl⟩
  · rw [htokens]
    exact List.cons_ne_nil _ _
  · rw [htokens]
    exact List.forall_mem_singleton.mpr htoken
  · rw [scored, hfind]
    rfl
  · rw [scored, hfind]
    rfl

/-! ## Hits and their documents -/

/-- A hit is shown with the path and the title of the one document that has the key it carries; both
are empty if there is none. -/
def Presents (s : Memory) (hit : ScoredChunk) : Prop :=
  (∃ d ∈ s.documents, d.id = hit.documentId ∧
    (∀ e ∈ s.documents, e.id = hit.documentId → e = d) ∧
    hit.path = d.path ∧ hit.title = d.title) ∨
  (∀ d ∈ s.documents, d.id ≠ hit.documentId) ∧ hit.path = "" ∧ hit.title = ""

/-- A search has the hit. -/
inductive Finds (s : Memory) (hit : ScoredChunk) : Prop
  /-- a semantic one -/
  | semantic {query : Embedding} {floor : Option Float} {limit : Int}
    (h : hit ∈ s.semanticSearch query floor limit)
  /-- a full-text one -/
  | fulltext {query : String} {limit : Int} (h : hit ∈ s.fulltextSearch query limit)

/-- A hit is a chunk with a score. -/
theorem Finds.exists_scored {hit : ScoredChunk} (h : s.Finds hit) :
    ∃ c ∈ s.chunks, ∃ score, hit = s.scored c score := by
  have hof : ∀ f : StoredChunk → Option Float,
      hit ∈ (s.chunks.filterMap fun c => (f c).map (s.scored c)) →
        ∃ c ∈ s.chunks, ∃ score, hit = s.scored c score := by
    intro f hmem
    obtain ⟨c, hc, score, -, heq⟩ := mem_scored.mp hmem
    exact ⟨c, hc, score, heq⟩
  cases h with
  | semantic h => exact hof _ (Search.mem_of_mem_top h)
  | fulltext h =>
    rw [fulltextSearch] at h
    split at h
    · cases h
    · exact hof _ (Search.mem_of_mem_top h)

/-- **Every hit is shown with its own document,** or with none if there is none. -/
theorem WellFormed.presents (hs : s.WellFormed) {hit : ScoredChunk} (h : s.Finds hit) :
    s.Presents hit := by
  obtain ⟨c, -, score, rfl⟩ := h.exists_scored
  cases hfind : s.documents.find? (·.id == c.documentId) with
  | none =>
    refine Or.inr ⟨fun d hd hid => ?_, ?_, ?_⟩
    · exact List.find?_eq_none.mp hfind d hd (beq_iff_eq.mpr hid)
    · simp [scored, hfind]
    · simp [scored, hfind]
  | some d =>
    have hd := List.mem_of_find?_eq_some hfind
    have hid := List.find?_some hfind
    refine Or.inl ⟨d, hd, eq_of_beq hid, fun e he heq => ?_, ?_, ?_⟩
    · exact hs.eq_of_id he hd (heq.trans (eq_of_beq hid).symm)
    · simp [scored, hfind]
    · simp [scored, hfind]

/-! ## The best hits -/

/-- The hits of a semantic search: the chunks that have a vector, with its cosine with the query for
a score, which is not below the floor. -/
def Near (s : Memory) (query : Embedding) (floor : Option Float) (hit : ScoredChunk) : Prop :=
  ∃ c ∈ s.chunks, c.vector ≠ [] ∧ (∀ f, floor = some f → f ≤ hit.score) ∧
    hit = s.scored c (Embedding.cosine query c.vector).toFloat

/-- The hits of a full-text search: the chunks that have every word of the query among theirs, with
the part that these make up for a score; none for a query without words. -/
def Matching (s : Memory) (query : String) (hit : ScoredChunk) : Prop :=
  tokens query.toList ≠ [] ∧
    ∃ c ∈ s.chunks, (∀ t ∈ tokens query.toList, t ∈ tokens c.content.toList) ∧
      hit = s.scored c (relevance (tokens query.toList) c.content)

theorem similarity?_eq_some_iff {query : Embedding} {floor : Option Float} {c : StoredChunk}
    {score : Float} : similarity? query floor c = some score ↔
      c.vector ≠ [] ∧ (∀ f, floor = some f → f ≤ score) ∧
        score = (Embedding.cosine query c.vector).toFloat := by
  rw [similarity?]
  split_ifs with hempty <;> rw [List.isEmpty_iff] at hempty
  · exact iff_of_false (fun h => nomatch h) fun h => h.1 hempty
  · cases floor with
    | none => simp [hempty, eq_comm]
    | some f =>
      dsimp only
      split_ifs with hle
      · constructor
        · rintro ⟨⟩
          exact ⟨hempty, fun g hg => Option.some.inj hg ▸ hle, rfl⟩
        · rintro ⟨-, -, rfl⟩
          rfl
      · refine iff_of_false (fun h => nomatch h) ?_
        rintro ⟨-, hfloor, rfl⟩
        exact hle (hfloor f rfl)

/-- No chunk is scored twice. -/
theorem WellFormed.nodup_scored (hs : s.WellFormed) (score : StoredChunk → Option Float) :
    ((s.chunks.filterMap fun c => (score c).map (s.scored c)).map (·.chunkId)).Nodup := by
  refine List.pairwise_map.mpr (hs.increasing.filterMap _ fun b c hlt => ?_)
  intro hit hhit hit' hhit'
  obtain ⟨_, -, rfl⟩ := Option.map_eq_some_iff.mp hhit
  obtain ⟨_, -, rfl⟩ := Option.map_eq_some_iff.mp hhit'
  exact Int.ne_of_lt hlt

theorem WellFormed.ranks_semanticSearch (hs : s.WellFormed) {query : Embedding}
    {floor : Option Float} (hnum : ∀ hit, s.Near query floor hit → hit.score.isNaN = false) :
    Search.Ranks (s.Near query floor) (s.semanticSearch query floor) := by
  refine Search.ranks_top (fun hit => ?_) (hs.nodup_scored _) hnum
  rw [mem_scored, Near]
  refine exists_congr fun c => and_congr_right fun _ => ?_
  constructor
  · rintro ⟨score, hscore, rfl⟩
    obtain ⟨hvector, hfloor, rfl⟩ := similarity?_eq_some_iff.mp hscore
    exact ⟨hvector, hfloor, rfl⟩
  · rintro ⟨hvector, hfloor, rfl⟩
    exact ⟨_, similarity?_eq_some_iff.mpr ⟨hvector, hfloor, rfl⟩, rfl⟩

theorem WellFormed.ranks_fulltextSearch (hs : s.WellFormed) {query : String}
    (hnum : ∀ hit, s.Matching query hit → hit.score.isNaN = false) :
    Search.Ranks (s.Matching query) (s.fulltextSearch query) := by
  rcases hterms : tokens query.toList with _ | ⟨t, ts⟩
  · have hnone : s.fulltextSearch query = fun limit => Search.top limit [] := by
      funext limit
      rw [fulltextSearch, hterms]
      exact List.take_nil.symm
    rw [hnone]
    exact Search.ranks_top (fun hit => iff_of_false List.not_mem_nil fun h => h.1 hterms)
      List.nodup_nil hnum
  · have hsome : s.fulltextSearch query = fun limit => Search.top limit
        (s.chunks.filterMap fun c => (relevance? (t :: ts) c.content).map (s.scored c)) := by
      funext limit
      rw [fulltextSearch, hterms]
      rfl
    rw [hsome]
    refine Search.ranks_top (fun hit => ?_) (hs.nodup_scored _) hnum
    rw [mem_scored, Matching, hterms]
    refine Iff.trans ?_ (and_iff_right (List.cons_ne_nil t ts)).symm
    refine exists_congr fun c => and_congr_right fun _ => ?_
    constructor
    · rintro ⟨score, hscore, rfl⟩
      obtain ⟨hall, rfl⟩ := relevance?_eq_some_iff.mp hscore
      exact ⟨hall, rfl⟩
    · rintro ⟨hall, rfl⟩
      exact ⟨_, relevance?_eq_some_iff.mpr ⟨hall, rfl⟩, rfl⟩

/-- **Searches answer the best of all hits:** those with the greatest scores, and of equal scores
those with the least keys, each chunk once, as many as the limit says. The scores have to be
numbers, and what is no number is below every floor. -/
theorem WellFormed.ranks (hs : s.WellFormed) {query : Embedding} {floor : Option Float}
    {text : String}
    (hnear : floor = none → ∀ hit, s.Near query floor hit → hit.score.isNaN = false)
    (hmatching : ∀ hit, s.Matching text hit → hit.score.isNaN = false) :
    Search.Ranks (s.Near query floor) (s.semanticSearch query floor) ∧
      Search.Ranks (s.Matching text) (s.fulltextSearch text) := by
  refine ⟨hs.ranks_semanticSearch fun hit hhit => ?_, hs.ranks_fulltextSearch hmatching⟩
  cases floor with
  | none => exact hnear rfl hit hhit
  | some f =>
    obtain ⟨c, -, -, hfloor, rfl⟩ := hhit
    exact (Decimal.isNaN_of_le (hfloor f rfl)).2

/-- A store with two chunks, the second of which has more of the word `a`. -/
def sampleChunks : Memory :=
  (({} : Memory).insertChunk 1 ⟨0, "a b", {}⟩ [1, 0]).insertChunk 1 ⟨1, "a a b", {}⟩ [0, 1]

/-- With a floor, and for a word that makes up a half of one chunk and two thirds of the other. -/
theorem ranks_sampleChunks :
    Search.Ranks (sampleChunks.Near [1, 1] (some 0)) (sampleChunks.semanticSearch [1, 1] (some 0)) ∧
      Search.Ranks (sampleChunks.Matching "a") (sampleChunks.fulltextSearch "a") := by
  have hs : sampleChunks.WellFormed := (wellFormed_empty.insertChunk 1 _ _).insertChunk 1 _ _
  refine hs.ranks (fun h => nomatch h) ?_
  rintro hit ⟨-, c, hc, -, rfl⟩
  rcases List.mem_pair.mp hc with rfl | rfl <;> decide +kernel

end Memory

end MarkdownIndex
