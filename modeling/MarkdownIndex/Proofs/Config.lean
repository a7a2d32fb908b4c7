import MarkdownIndex.Config.Codec
import MarkdownIndex.Embedding.Client
import MarkdownIndex.Proofs.Decimal.Order
import MarkdownIndex.Proofs.Http.Embedding
import MarkdownIndex.Proofs.Ingest.Asked
import MarkdownIndex.Proofs.Searches

/-!
# Configurations: what is loaded is good for every part

The rules of a configuration are checked in one place, when it is loaded. The parts of the index
read their own sections of it and have checks of their own, none of which a loaded configuration
fails.

* `Config.Valid`, `validate_eq_ok_iff`, `load_eq_ok_iff` — the rules, and what is loaded.
* `Config.Suits` — what the parts make of a configuration.
* `suits_of_load` — the main result.
-/

namespace MarkdownIndex

open Text Program

variable {c : Config} {content : String} {env : Environment}

/-! ## Rules -/

theorem ensure_eq_ok_iff {ε : Type} {rule : Bool} {e : ε} :
    ensure rule e = .ok () ↔ rule = true := by
  cases rule with
  | true => exact iff_of_true rfl rfl
  | false => exact iff_of_false (fun h => nomatch h) Bool.false_ne_true

/-- Rules are checked up to the first that is broken. -/
theorem ensure_bind_eq_ok_iff {ε α : Type} {rule : Bool} {e : ε} {f : Unit → Except ε α} {a : α} :
    ensure rule e >>= f = .ok a ↔ rule = true ∧ f () = .ok a := by
  cases rule with
  | true => exact (and_iff_right rfl).symm
  | false => exact iff_of_false (fun h => nomatch h) fun h => Bool.false_ne_true h.1

namespace Config

/-- The rules of a configuration. -/
structure Valid (c : Config) : Prop where
  /-- sections may be whole at some length -/
  maxChars : 0 < c.chunking.maxChars
  /-- a batch holds a text -/
  batchSize : 0 < c.embedding.batchSize
  /-- there is such an embedding client -/
  provider : c.embedding.provider = "http" ∨ c.embedding.provider = "disabled"
  /-- the floor is a similarity -/
  similarityThreshold : 0 ≤ c.search.similarityThreshold ∧ c.search.similarityThreshold ≤ 1
  /-- a hit is possible -/
  maxLimit : 1 ≤ c.search.maxLimit
  /-- the number of hits that are shown can be asked for -/
  defaultLimit : 1 ≤ c.search.defaultLimit ∧ c.search.defaultLimit ≤ c.search.maxLimit
  /-- there is such an embedder -/
  backend : c.embeddingService.backend = "local" ∨ c.embeddingService.backend = "hashing"
  /-- a request can hold a text -/
  maxTexts : 0 < c.embeddingService.maxTexts

/-- **The rules are those that are checked.** -/
theorem validate_eq_ok_iff : c.validate = .ok () ↔ c.Valid := by
  simp only [validate, ensure_bind_eq_ok_iff, ensure_eq_ok_iff, Bool.or_eq_true,
    Bool.and_eq_true, beq_iff_eq, decide_eq_true_eq]
  constructor
  · rintro ⟨hchars, hbatch, hprovider, hfloor, hmax, hdefault, hbackend, htexts⟩
    exact ⟨hchars, hbatch, hprovider, hfloor, hmax, hdefault, hbackend, htexts⟩
  · rintro ⟨hchars, hbatch, hprovider, hfloor, hmax, hdefault, hbackend, htexts⟩
    exact ⟨hchars, hbatch, hprovider, hfloor, hmax, hdefault, hbackend, htexts⟩

theorem finish_eq_ok_iff {d : Config} :
    d.finish env = .ok c ↔ c = d.override env ∧ c.Valid := by
  rw [← validate_eq_ok_iff, finish]
  cases hvalid : (d.override env).validate with
  | error e =>
    refine iff_of_false (fun h => nomatch h) ?_
    rintro ⟨rfl, hok⟩
    cases hvalid.symm.trans hok
  | ok u =>
    constructor
    · intro h
      obtain rfl := Except.ok.inj h
      exact ⟨rfl, hvalid⟩
    · rintro ⟨rfl, -⟩
      rfl

/-- **What is loaded** is what a text says, with the values of the environment, if it keeps the
rules. -/
theorem load_eq_ok_iff :
    load content env = .ok c ↔ ∃ d, ofToml content = .ok d ∧ c = d.override env ∧ c.Valid := by
  rw [load]
  cases hread : ofToml content with
  | error e => exact iff_of_false (fun h => nomatch h) fun ⟨_, h, _⟩ => nomatch h
  | ok d =>
    refine (finish_eq_ok_iff (d := d)).trans ⟨fun h => ⟨d, rfl, h⟩, ?_⟩
    rintro ⟨d', hd, h⟩
    obtain rfl := Except.ok.inj hd
    exact h

/-! ## Parts -/

/-- What the parts of the index make of a configuration. -/
structure Suits (c : Config) : Prop where
  /-- there is an embedding client of its name -/
  provider : ∃ p, Provider.ofConfig c.embedding = .ok p
  /-- there is an embedder of its name -/
  backend : ∀ name, Embedder.ofConfig c.embeddingService ≠ .error (.unknownBackend name)
  /-- no search for the usual number of hits is refused, unless the query is blank -/
  validate : ∀ query, isBlankText query.toList = false →
    (SearchService.ofConfig c.search).validate query
      (SearchService.ofConfig c.search).defaultLimit = .ok ()
  /-- and so it can only fail for the embedder or for the store -/
  search : ∀ m query, isBlankText query.toList = false → ∀ t e,
    Traces ((SearchService.ofConfig c.search).search m query
      (SearchService.ofConfig c.search).defaultLimit).run t (.error e) →
        (∃ d, e = .embedding d) ∨ ∃ f, e = .store f
  /-- a floor that is handed to the store is a similarity -/
  floor : ∀ m query limit t b,
    Traces ((SearchService.ofConfig c.search).search m query limit).run t b →
      ∀ x ∈ t, ∀ floor, x.floor? = some floor → 0 ≤ floor ∧ floor ≤ 1 ∧ floor.isNaN = false
  /-- the sizes of an ingestor are those of the configuration, and leave room for something -/
  sizes : ∀ g, Ingestor.ofConfig c = .ok g →
    g.batchSize = c.embedding.batchSize ∧ 1 ≤ g.batchSize ∧
      g.limits = c.chunking ∧ 1 ≤ g.limits.maxChars
  /-- the chunks of a file are asked for in batches of that size, all of them unless that fails -/
  batches : ∀ g, Ingestor.ofConfig c = .ok g → ∀ path t o, Traces (g.processFile path).run t o →
    Ingestor.Asked c.chunking c.embedding.batchSize path t o
  /-- the embedding service refuses no single text, whatever the model -/
  single : ∀ e r batch p t a, EmbeddingApi.readRequest r = .ok batch → batch.texts.length = 1 →
    EmbeddingApi.respond ⟨e, c.embeddingService.maxTexts⟩ r = some p → Traces p t a →
      a.status ≠ 400
  /-- and what it refuses as too many texts is more than one -/
  tooMany : ∀ e r p t, EmbeddingApi.respond ⟨e, c.embeddingService.maxTexts⟩ r = some p →
    Traces p t (Http.Response.detail 400
      (EmbeddingApi.tooManyTexts ⟨e, c.embeddingService.maxTexts⟩)).open →
        ∃ batch, EmbeddingApi.readRequest r = .ok batch ∧ 1 < batch.texts.length

theorem Valid.exists_provider (h : c.Valid) : ∃ p, Provider.ofConfig c.embedding = .ok p := by
  rw [Provider.ofConfig]
  rcases h.provider with hname | hname
  · rw [hname]
    exact ⟨_, rfl⟩
  · rw [hname]
    exact ⟨_, rfl⟩

theorem Valid.ne_unknownBackend (h : c.Valid) (name : String) :
    Embedder.ofConfig c.embeddingService ≠ .error (.unknownBackend name) := by
  rw [Embedder.ofConfig]
  rcases h.backend with hname | hname
  · rw [hname]
    exact fun heq => nomatch heq
  · rw [hname]
    exact fun heq => nomatch heq

/-- The usual number of hits can be asked for. -/
theorem Valid.validate_eq_ok (h : c.Valid) {query : String}
    (hquery : isBlankText query.toList = false) :
    (SearchService.ofConfig c.search).validate query
      (SearchService.ofConfig c.search).defaultLimit = .ok () := by
  rw [SearchService.validate, if_neg (Bool.eq_false_iff.mp hquery)]
  exact if_pos h.defaultLimit

/-- The sizes of an ingestor are those of the configuration. -/
theorem sizes_of_ofConfig {g : Ingestor} (h : Ingestor.ofConfig c = .ok g) :
    g.batchSize = c.embedding.batchSize ∧ g.limits = c.chunking := by
  rw [Ingestor.ofConfig] at h
  cases hscanner : Scanner.ofConfig c.docs with
  | error e =>
    rw [hscanner] at h
    cases h
  | ok scanner =>
    rw [hscanner] at h
    obtain rfl := Except.ok.inj h
    exact ⟨rfl, rfl⟩

/-- Every batch of a file but the last has the size of the configuration. -/
theorem Valid.asked (h : c.Valid) {g : Ingestor} (hg : Ingestor.ofConfig c = .ok g) {path : Path}
    {t : List (Exchange Work.interface)} {o : Except IngestError FileOutcome}
    (ht : Traces (g.processFile path).run t o) :
    Ingestor.Asked c.chunking c.embedding.batchSize path t o := by
  obtain ⟨hsize, hlimits⟩ := sizes_of_ofConfig hg
  rw [← hsize, ← hlimits]
  exact Ingestor.asked_of_traces (hsize ▸ h.batchSize) ht

theorem Valid.suits (h : c.Valid) : c.Suits where
  provider := h.exists_provider
  backend := h.ne_unknownBackend
  validate := fun _ hquery => h.validate_eq_ok hquery
  search := fun _ _ hquery _ _ ht => SearchService.fault_of_traces (h.validate_eq_ok hquery) ht
  floor := by
    intro m query limit t b ht x hx floor hfloor
    obtain rfl := SearchService.floor_of_traces ht hx hfloor
    obtain ⟨hle, hge⟩ := h.similarityThreshold
    exact ⟨hle, hge, (Decimal.isNaN_of_le hle).2⟩
  sizes := by
    intro g hg
    obtain ⟨hsize, hlimits⟩ := sizes_of_ofConfig hg
    exact ⟨hsize, hsize ▸ h.batchSize, hlimits, hlimits ▸ h.maxChars⟩
  batches := fun _ hg _ _ _ ht => h.asked hg ht
  single := fun e _ _ _ _ _ hread hone hp ht =>
    EmbeddingApi.status_ne_of_single (s := ⟨e, _⟩) h.maxTexts hread hone hp ht
  tooMany := fun e _ _ _ hp ht =>
    EmbeddingApi.one_lt_of_tooMany (s := ⟨e, _⟩) h.maxTexts hp ht

/-- **A configuration that is loaded suits every part.** -/
theorem suits_of_load (h : load content env = .ok c) : c.Suits := by
  obtain ⟨d, -, -, hvalid⟩ := load_eq_ok_iff.mp h
  exact hvalid.suits

/-- A text that sets some keys. -/
def sampleText : String :=
  "[chunking]\nmax_chars = 80\n[embedding]\nprovider = \"disabled\"\nbatch_size = 2\n" ++
    "[search]\nsimilarity_threshold = 0.25\ndefault_limit = 5\n"

/-- An environment that says where the documents are. -/
def sampleEnvironment : Environment := fun name =>
  if name = "DOCS_PATH" then some "notes" else none

/-- The configuration of both. -/
theorem suits_of_load_sample :
    ∃ c, load sampleText sampleEnvironment = .ok c ∧
      (c.chunking.maxChars, c.embedding.batchSize, c.search.defaultLimit, c.docs.root) =
        (80, 2, 5, "notes") ∧ c.Suits := by
  have hkeys : (load sampleText sampleEnvironment).toOption.map (fun c =>
      (c.chunking.maxChars, c.embedding.batchSize, c.search.defaultLimit, c.docs.root)) =
        some (80, 2, 5, "notes") := by
    decide +kernel
  cases hload : load sampleText sampleEnvironment with
  | error e =>
    rw [hload] at hkeys
    cases hkeys
  | ok c =>
    rw [hload] at hkeys
    exact ⟨c, rfl, Option.some.inj hkeys, suits_of_load hload⟩

end Config

end MarkdownIndex
