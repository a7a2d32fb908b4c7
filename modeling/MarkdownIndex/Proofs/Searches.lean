import Mathlib.Data.List.Basic
import MarkdownIndex.Proofs.Program.Trace
import MarkdownIndex.Search

/-!
# Searches: what is asked for them

* `firstVector` — the vector of a single text, as the embedder has answered.
* `Finds`, `traces_find` — what a mode asks, in order and up to the first failure: the embedder
  first, unless only words count, and then the store.
* `traces_search` — a search that passes its checks is gone on with; for others nothing is asked.
* `floor_of_traces`, `fault_of_traces` — the floor that the store gets, and what a search can fail
for. -/

namespace MarkdownIndex

open Text Program

/-- The store is asked for something. -/
abbrev Exchange.asked (c : Store.Call) (r : Store.Reply c) : Exchange Work.interface := ⟨.store c, r⟩

/-- The floor that is handed to the store, if one is. -/
def Exchange.floor? (x : Exchange Work.interface) : Option Float :=
  match x.call with
  | .store (.semanticSearch _ floor _) => floor
  | _ => none

variable {s : SearchService} {text : String} {limit : Int} {m : SearchMode}
variable {t u : List (Exchange Work.interface)}

/-- The vector of a single text, as the embedder has answered. -/
def firstVector : Except EmbeddingError (List Embedding) → Except EmbeddingError Embedding
  | .error e => .error e
  | .ok [] => .error (.invalidResponse "No embeddings returned")
  | .ok (v :: _) => .ok v

namespace SearchService

theorem traces_stored {c : Store.Call} {b : Except SearchError (Store.Answer c)} :
    Traces (stored c).run t b ↔
      ∃ a : Store.Reply c, t = [.asked c a] ∧ b = a.mapError .store := by
  rw [stored, traces_run_orFail]
  exact exists_congr fun a => and_congr_left fun _ => traces_ask

theorem traces_vectorOf {b : Except SearchError Embedding} :
    Traces (vectorOf text).run t b ↔
      ∃ r, t = [.embedded [text] r] ∧ b = (firstVector r).mapError .embedding := by
  rw [vectorOf, traces_run_orFail]
  constructor
  · rintro ⟨a, ha, rfl⟩
    obtain ⟨r, u, v, rfl, hask, hrest⟩ := traces_bind.mp ha
    obtain rfl := traces_ask.mp hask
    rcases r with e | _ | ⟨v, vs⟩
    · obtain ⟨rfl, rfl⟩ := traces_done.mp hrest
      exact ⟨_, rfl, rfl⟩
    · obtain ⟨rfl, rfl⟩ := traces_done.mp hrest
      exact ⟨_, rfl, rfl⟩
    · obtain ⟨rfl, rfl⟩ := traces_done.mp hrest
      exact ⟨_, rfl, rfl⟩
  · rintro ⟨r, rfl, rfl⟩
    refine ⟨firstVector r, traces_bind.mpr ⟨r, [_], [], rfl, traces_ask.mpr rfl, ?_⟩, rfl⟩
    rcases r with e | _ | ⟨v, vs⟩
    · exact traces_done.mpr ⟨rfl, rfl⟩
    · exact traces_done.mpr ⟨rfl, rfl⟩
    · exact traces_done.mpr ⟨rfl, rfl⟩

/-- What a mode asks for a text, in order and up to the first failure, and what comes of it. -/
inductive Finds (s : SearchService) (text : String) (limit : Int) : SearchMode →
    List (Exchange Work.interface) → Except SearchError (List ScoredChunk) → Prop
  /-- the text gets no vector -/
  | noVector {m : SearchMode} {r : Except EmbeddingError (List Embedding)} {e : EmbeddingError}
    (hm : m ≠ .fulltext) (hr : firstVector r = .error e) :
    Finds s text limit m [.embedded [text] r] (.error (.embedding e))
  /-- the chunks nearest to its vector, down to the floor -/
  | semantic {r : Except EmbeddingError (List Embedding)} {v : Embedding}
    (a : Except Failure (List ScoredChunk)) (hr : firstVector r = .ok v) :
    Finds s text limit .semantic
      [.embedded [text] r, .asked (.semanticSearch v (some s.similarityThreshold) limit) a]
      (a.mapError .store)
  /-- the chunks with its words -/
  | fulltext (a : Except Failure (List ScoredChunk)) :
    Finds s text limit .fulltext [.asked (.fulltextSearch text limit) a] (a.mapError .store)
  /-- for both, the nearest chunks are not found -/
  | hybridFailed {r : Except EmbeddingError (List Embedding)} {v : Embedding} (f : Failure)
    (hr : firstVector r = .ok v) :
    Finds s text limit .hybrid
      [.embedded [text] r, .asked (.semanticSearch v none limit) (.error f)] (.error (.store f))
  /-- for both, the nearest chunks whatever the floor, and then those with its words -/
  | hybrid {r : Except EmbeddingError (List Embedding)} {v : Embedding}
    (near : List ScoredChunk) (a : Except Failure (List ScoredChunk)) (hr : firstVector r = .ok v) :
    Finds s text limit .hybrid
      [.embedded [text] r, .asked (.semanticSearch v none limit) (.ok near),
        .asked (.fulltextSearch text limit) a]
      ((a.mapError .store).map fun matching => Search.merge near matching limit)

theorem traces_semantic {b : Except SearchError (List ScoredChunk)} :
    Traces (s.semantic text limit).run t b ↔ Finds s text limit .semantic t b := by
  refine (traces_run_once_bind traces_vectorOf).trans ⟨?_, ?_⟩
  · rintro ⟨r, ⟨v, u, hv, rfl, hu⟩ | ⟨e, he, rfl, rfl⟩⟩
    · obtain ⟨a, rfl, rfl⟩ := traces_stored.mp hu
      exact Finds.semantic a (mapError_eq_ok_iff.mp hv)
    · obtain ⟨_, hr, rfl⟩ := mapError_eq_error_iff.mp he
      exact Finds.noVector (fun h => nomatch h) hr
  · rintro (⟨-, hr⟩ | ⟨a, hr⟩)
    · exact ⟨_, Or.inr ⟨_, mapError_eq_error_iff.mpr ⟨_, hr, rfl⟩, rfl, rfl⟩⟩
    · exact ⟨_, Or.inl ⟨_, _, mapError_eq_ok_iff.mpr hr, rfl, traces_stored.mpr ⟨a, rfl, rfl⟩⟩⟩

theorem traces_hybrid {b : Except SearchError (List ScoredChunk)} :
    Traces (hybrid text limit).run t b ↔ Finds s text limit .hybrid t b := by
  refine (traces_run_once_bind traces_vectorOf).trans ⟨?_, ?_⟩
  · rintro ⟨r, ⟨v, u, hv, rfl, hu⟩ | ⟨e, he, rfl, rfl⟩⟩
    · have hr := mapError_eq_ok_iff.mp hv
      rcases (traces_run_once_bind traces_stored).mp hu with
        ⟨_, ⟨near, u₁, hnear, rfl, hrest⟩ | ⟨e, hf, rfl, rfl⟩⟩
      · obtain rfl := mapError_eq_ok_iff.mp hnear
        rcases (traces_run_once_bind traces_stored).mp hrest with
          ⟨_, ⟨matching, u₂, ha, rfl, hmerge⟩ | ⟨e, ha, rfl, rfl⟩⟩
        · obtain ⟨rfl, rfl⟩ := traces_run_pure.mp hmerge
          obtain rfl := mapError_eq_ok_iff.mp ha
          exact Finds.hybrid near (.ok matching) hr
        · obtain ⟨f, rfl, rfl⟩ := mapError_eq_error_iff.mp ha
          exact Finds.hybrid near (.error f) hr
      · obtain ⟨f, rfl, rfl⟩ := mapError_eq_error_iff.mp hf
        exact Finds.hybridFailed f hr
    · obtain ⟨_, hr, rfl⟩ := mapError_eq_error_iff.mp he
      exact Finds.noVector (fun h => nomatch h) hr
  · rintro (⟨-, hr⟩ | _ | _ | ⟨f, hr⟩ | ⟨near, a, hr⟩)
    · exact ⟨_, Or.inr ⟨_, mapError_eq_error_iff.mpr ⟨_, hr, rfl⟩, rfl, rfl⟩⟩
    · refine ⟨_, Or.inl ⟨_, _, mapError_eq_ok_iff.mpr hr, rfl, ?_⟩⟩
      exact (traces_run_once_bind traces_stored).mpr ⟨.error f, Or.inr ⟨_, rfl, rfl, rfl⟩⟩
    · refine ⟨_, Or.inl ⟨_, _, mapError_eq_ok_iff.mpr hr, rfl, ?_⟩⟩
      refine (traces_run_once_bind traces_stored).mpr ⟨.ok near, Or.inl ⟨near, _, rfl, rfl, ?_⟩⟩
      refine (traces_run_once_bind traces_stored).mpr ⟨a, ?_⟩
      cases a with
      | ok matching => exact Or.inl ⟨matching, [], rfl, rfl, traces_run_pure.mpr ⟨rfl, rfl⟩⟩
      | error f => exact Or.inr ⟨_, rfl, rfl, rfl⟩

/-- **What a mode asks.** -/
theorem traces_find {b : Except SearchError (List ScoredChunk)} :
    Traces (s.find m text limit).run t b ↔ Finds s text limit m t b := by
  cases m with
  | semantic => exact traces_semantic
  | hybrid => exact traces_hybrid
  | fulltext =>
    refine traces_stored.trans ⟨?_, ?_⟩
    · rintro ⟨a, rfl, rfl⟩
      exact Finds.fulltext a
    · rintro (⟨hm, -⟩ | ⟨a⟩)
      · exact absurd rfl hm
      · exact ⟨_, rfl, rfl⟩

/-- A search that passes its checks is gone on with. -/
theorem traces_search {query : String} {b : Except SearchError (List SearchHit)} :
    Traces (s.search m query limit).run t b ↔
      (∃ e, s.validate query limit = .error e ∧ b = .error e ∧ t = []) ∨
        s.validate query limit = .ok () ∧
          ∃ c, Finds s (String.ofList (trim query.toList)) limit m t c ∧
            b = c.map (List.map ScoredChunk.toHit) := by
  rw [search]
  cases hvalid : s.validate query limit with
  | error e =>
    refine traces_run_throw.trans ⟨?_, ?_⟩
    · rintro ⟨rfl, rfl⟩
      exact Or.inl ⟨e, rfl, rfl, rfl⟩
    · rintro (⟨e', he, rfl, rfl⟩ | ⟨he, -⟩)
      · obtain rfl := Except.error.inj he
        exact ⟨rfl, rfl⟩
      · cases he
  | ok _ =>
    refine traces_run_bind.trans ⟨?_, ?_⟩
    · rintro (⟨found, u, v, rfl, hfind, hpure⟩ | ⟨e, hfind, rfl⟩)
      · obtain ⟨rfl, rfl⟩ := traces_run_pure.mp hpure
        rw [List.append_nil]
        exact Or.inr ⟨rfl, .ok found, traces_find.mp hfind, rfl⟩
      · exact Or.inr ⟨rfl, .error e, traces_find.mp hfind, rfl⟩
    · rintro (⟨e, he, -⟩ | ⟨-, c, hc, rfl⟩)
      · cases he
      · cases c with
        | ok found =>
          exact Or.inl ⟨found, t, [], (List.append_nil t).symm, traces_find.mpr hc,
            traces_run_pure.mpr ⟨rfl, rfl⟩⟩
        | error e => exact Or.inr ⟨e, traces_find.mpr hc, rfl⟩

/-! ## What the store and the caller get -/

/-- The only floor that a search hands to the store is that of the service. -/
theorem floor_of_finds {b : Except SearchError (List ScoredChunk)} (h : s.Finds text limit m t b)
    {x : Exchange Work.interface} (hx : x ∈ t) {floor : Float} (hfloor : x.floor? = some floor) :
    floor = s.similarityThreshold := by
  cases h with
  | noVector hm hr =>
    obtain rfl := List.mem_singleton.mp hx
    cases hfloor
  | semantic a hr =>
    rcases List.mem_pair.mp hx with rfl | rfl
    · cases hfloor
    · exact (Option.some.inj hfloor).symm
  | fulltext a =>
    obtain rfl := List.mem_singleton.mp hx
    cases hfloor
  | hybridFailed f hr =>
    rcases List.mem_pair.mp hx with rfl | rfl
    · cases hfloor
    · cases hfloor
  | hybrid near a hr =>
    rcases List.mem_cons.mp hx with rfl | hx
    · cases hfloor
    · rcases List.mem_pair.mp hx with rfl | rfl
      · cases hfloor
      · cases hfloor

/-- A search that is under way fails for the embedder or for the store. -/
theorem fault_of_finds {b : Except SearchError (List ScoredChunk)} {e : SearchError}
    (h : s.Finds text limit m t b) (hb : b = .error e) :
    (∃ d, e = .embedding d) ∨ ∃ f, e = .store f := by
  cases h with
  | noVector hm hr => exact Or.inl ⟨_, (Except.error.inj hb).symm⟩
  | semantic r hr =>
    obtain ⟨f, -, rfl⟩ := mapError_eq_error_iff.mp hb
    exact Or.inr ⟨f, rfl⟩
  | fulltext r =>
    obtain ⟨f, -, rfl⟩ := mapError_eq_error_iff.mp hb
    exact Or.inr ⟨f, rfl⟩
  | hybridFailed f hr => exact Or.inr ⟨f, (Except.error.inj hb).symm⟩
  | hybrid near r hr =>
    cases r with
    | ok matching => cases hb
    | error f => exact Or.inr ⟨f, (Except.error.inj hb).symm⟩

theorem floor_of_traces {query : String} {b : Except SearchError (List SearchHit)}
    (h : Traces (s.search m query limit).run t b) {x : Exchange Work.interface} (hx : x ∈ t)
    {floor : Float} (hfloor : x.floor? = some floor) : floor = s.similarityThreshold := by
  rcases traces_search.mp h with ⟨e, -, -, rfl⟩ | ⟨-, c, hfinds, -⟩
  · exact absurd hx List.not_mem_nil
  · exact floor_of_finds hfinds hx hfloor

/-- A search that passes its checks can only fail for the embedder or for the store. -/
theorem fault_of_traces {query : String} {e : SearchError} (hvalid : s.validate query limit = .ok ())
    (h : Traces (s.search m query limit).run t (.error e)) :
    (∃ d, e = .embedding d) ∨ ∃ f, e = .store f := by
  rcases traces_search.mp h with ⟨e', he', -, -⟩ | ⟨-, b, hfinds, hb⟩
  · cases hvalid.symm.trans he'
  · cases b with
    | ok found => cases hb
    | error e' =>
      obtain rfl := Except.error.inj hb
      exact fault_of_finds hfinds rfl

end SearchService

end MarkdownIndex
