import MarkdownIndex.Embedding.Client
import MarkdownIndex.Http.EmbeddingApi
import MarkdownIndex.Proofs.Embedding.Message
import MarkdownIndex.Proofs.Net
import MarkdownIndex.Proofs.Program.Trace
import MarkdownIndex.Proofs.Text.Utf8

/-!
# Client and service: what a batch comes to

The client asks for the vectors of some texts, and the embedding service is at the other end. What
the client writes is read by the service and what the service writes by the client, so a batch comes
to what the model makes of its texts, or to the error that the service tells.

* `Wire` — the service answers every request, at times of its own, and keeps a list of them.
* `readRequest_request` — the batch that a client sends is the one that the service reads.
* `embeddings_of_tooMany`, `embeddings_of_noModel`, `embeddings_of_model`, `traces_embedWith` — the
  answers of the service.
* `readReply_detail`, `readReply_vectors` — what the client reads in them.
* `ends_attempts_final`, `ends_attempts_passing` — an outcome that is final ends the attempts; one
  that always passes uses them up.
* `ends_embed_hashing` — **client and service agree on every batch.**
-/

namespace MarkdownIndex

open Http Text Program

variable {c : EmbeddingClient} {s : EmbeddingService} {texts : List String}
variable {log log' : List Request} {r : Except EmbeddingError (List Embedding)}

/-! ## Vectors -/

namespace Embedding

theorem length_normalize (v : Embedding) : v.normalize.length = v.length := by
  rw [normalize]
  split_ifs
  · exact List.length_map _
  · rfl

namespace Hashing

/-- Features leave the dimension of a vector as it is. -/
theorem length_foldl_addTo (fs : List Feature) (v : Embedding) :
    (fs.foldl (fun v f => f.addTo v) v).length = v.length := by
  induction fs generalizing v with
  | nil => rfl
  | cons f fs ih => rw [List.foldl_cons, ih, Feature.addTo, List.length_modify]

/-- **Every vector has the dimension in use.** -/
theorem length_embedText (wanted : Nat) (text : String) :
    (embedText wanted text).length = dimensions wanted := by
  rw [embedText, length_normalize, length_foldl_addTo, List.length_replicate]

end Hashing

end Embedding

/-! ## The wire -/

/-- The way from a client to a service. The service answers every request, at times of its own, and
keeps a list of those that have reached it; nothing is lost. -/
inductive Wire (s : EmbeddingService) : Surroundings Net.interface (List Request)
  /-- a request is answered by the service -/
  | send {log : List Request} {url : Url} {request : Request} {timeout : Nat}
    {p : Program Host.interface Response} {t : List (Exchange Host.interface)} {response : Response}
    (hp : EmbeddingApi.respond s request = some p) (ht : p.Traces t response) :
    Wire s log (.send url request timeout) (Except.ok response.toReply) (log ++ [request])
  /-- time passes, and the service has nothing to do with it -/
  | pause {log : List Request} {milliseconds : Nat} : Wire s log (.pause milliseconds) () log

/-- The batches of a client arrive at the endpoint for batches, on whatever host. -/
def Reaches (c : EmbeddingClient) : Prop :=
  (Url.parse? c.endpoint).map Url.target = some "/embeddings"

instance : DecidablePred Reaches := fun _ => inferInstanceAs (Decidable (_ = _))

namespace EmbeddingClient

/-- The request for the vectors of some texts. -/
def request (c : EmbeddingClient) (texts : List String) : Request where
  method := "POST"
  target := "/embeddings"
  headers := [("content-type", "application/json")]
  body := encode (EmbeddingRequest.mk texts c.model).toJson.compactChars

end EmbeddingClient

/-! ## What the service reads and answers -/

namespace EmbeddingApi

/-- **The batch that a client sends is the one that the service reads,** unless it is too long. -/
theorem readRequest_request (hsize : (c.request texts).body.length ≤ maxBodyBytes) :
    readRequest (c.request texts) = .ok ⟨texts, c.model⟩ := by
  have hjson : isJson (c.request texts) = true := by
    simp only [isJson, Request.header?, EmbeddingClient.request]
    decide +kernel
  have hdecode : Json.decodeBytes? EmbeddingRequest.record.decode (c.request texts).body =
      .ok ⟨texts, c.model⟩ :=
    (Json.decodeBytes?_encode _ _).trans (EmbeddingRequest.decode?_toJson _)
  simp only [readRequest, hjson, Bool.not_true, Bool.false_eq_true, if_false,
    if_neg (Nat.not_lt.mpr hsize), hdecode]

/-- A batch is answered by the endpoint for batches, for pages of any origin. -/
theorem respond_request (s : EmbeddingService) (c : EmbeddingClient) (texts : List String) :
    respond s (c.request texts) = some do
      let response ← embeddings s (c.request texts)
      return (response.forMethod "POST").open := by
  have htarget : Target.read? (c.request texts).target = some ⟨"/embeddings", none⟩ := by
    simp only [EmbeddingClient.request]
    decide +kernel
  rw [respond, htarget]
  apply congrArg some
  apply dispatchOpen_of_takes
  · exact show "POST" ≠ "OPTIONS" by decide
  · exact show Accepts.post.takes "POST" = true by decide

section Answers

variable (hread : readRequest (c.request texts) = .ok ⟨texts, c.model⟩) (hne : texts ≠ [])
include hread hne

/-- More texts than the service takes. -/
theorem embeddings_of_tooMany (hmany : s.maxTexts < texts.length) :
    embeddings s (c.request texts) =
      return .detail 400 ("Too many texts (max " ++ toString s.maxTexts ++ ")") := by
  have hempty : ¬ texts.isEmpty = true := mt List.isEmpty_iff.mp hne
  simp only [embeddings, hread, if_neg hempty, if_pos hmany]

/-- No more of them, but no model either. -/
theorem embeddings_of_noModel (hfew : texts.length ≤ s.maxTexts) (hs : s.embedder = none) :
    embeddings s (c.request texts) = return .detail 503 "Model not loaded" := by
  have hempty : ¬ texts.isEmpty = true := mt List.isEmpty_iff.mp hne
  simp only [embeddings, hread, if_neg hempty, if_neg (Nat.not_lt.mpr hfew), hs]

/-- No more of them, and a model. -/
theorem embeddings_of_model (hfew : texts.length ≤ s.maxTexts) {e : Embedder}
    (hs : s.embedder = some e) :
    embeddings s (c.request texts) = embedWith e texts := by
  have hempty : ¬ texts.isEmpty = true := mt List.isEmpty_iff.mp hne
  simp only [embeddings, hread, if_neg hempty, if_neg (Nat.not_lt.mpr hfew), hs]

end Answers

/-- A model that has vectors for the texts, and the time that it took. -/
theorem traces_embedWith {e : Embedder} {vs : List Embedding} (hvs : e.embed texts = .ok vs)
    {t : List (Exchange Host.interface)} {response : Response} :
    Traces (embedWith e texts) t response ↔
      ∃ started finished : Instant, t = [⟨.now, started⟩, ⟨.now, finished⟩] ∧
        response = .ofJson 200 (EmbeddingResponse.mk vs e.modelName (dimensionsOf e vs)
          (Instant.seconds (finished - started))).toJson := by
  constructor
  · intro h
    obtain ⟨started, u, v, rfl, hstarted, hrest⟩ := traces_bind.mp h
    obtain rfl := traces_ask.mp hstarted
    simp only [hvs] at hrest
    obtain ⟨finished, u, v, rfl, hfinished, hdone⟩ := traces_bind.mp hrest
    obtain rfl := traces_ask.mp hfinished
    obtain ⟨rfl, rfl⟩ := traces_done.mp hdone
    exact ⟨started, finished, rfl, rfl⟩
  · rintro ⟨started, finished, rfl, rfl⟩
    refine traces_bind.mpr ⟨started, [_], [_], rfl, traces_ask.mpr rfl, ?_⟩
    simp only [hvs]
    refine traces_bind.mpr ⟨finished, [_], [], rfl, traces_ask.mpr rfl, ?_⟩
    exact traces_done.mpr ⟨rfl, rfl⟩

end EmbeddingApi

/-! ## What the client reads -/

namespace EmbeddingClient

/-- An error as the client tells it, whose wording is the body that the service sends. -/
def refusal (status : Nat) (what : String) : EmbeddingError :=
  .status status (String.ofList (Json.object [("detail", .string what)]).compactChars)

theorem readReply_detail {status : Nat} (hstatus : 300 ≤ status) (count : Nat) (what : String) :
    readReply count (Response.detail status what).toReply = .error (refusal status what) := by
  have hfailed : (Response.detail status what).toReply.isSuccess = false := by
    simp only [Reply.isSuccess, Bool.and_eq_false_iff, decide_eq_false_iff_not]
    exact Or.inr (Nat.not_lt.mpr hstatus)
  have hbody : decodeLossy (Response.detail status what).toReply.body =
      (Json.object [("detail", .string what)]).compactChars := decodeLossy_encode _
  simp only [readReply, hfailed, Bool.false_eq_true, if_false, hbody]
  rfl

/-- **The vectors that the service sends are the ones that the client reads.** -/
theorem readReply_vectors (res : EmbeddingResponse)
    (hv : ∀ v ∈ res.embeddings, ∀ x ∈ v, Survives x) (hd : res.dimensions < Decimal.twoTo 64)
    (ht : Legible res.processingTime) :
    readReply res.embeddings.length (Response.ofJson 200 res.toJson).toReply =
      .ok res.embeddings := by
  obtain ⟨t, hdecode⟩ := EmbeddingResponse.decode?_toJson hv hd ht
  have hbody : (Response.ofJson 200 res.toJson).toReply.body =
      encode res.toJson.compactChars := rfl
  have hvectors : vectors? (Response.ofJson 200 res.toJson).toReply.body =
      some res.embeddings := by
    rw [hbody, vectors?, Json.decodeBytes?_encode, hdecode]
  have hsuccess : (Response.ofJson 200 res.toJson).toReply.isSuccess = true := rfl
  simp only [readReply, hsuccess, if_true, hvectors]

/-! ## One attempt -/

/-- What is sent is answered by the service. -/
theorem ends_sendJson {address : String} {url : Url} (hurl : Url.parse? address = some url)
    {v : Json} {timeout : Nat} {request : Request}
    (hrequest : request =
      ⟨"POST", url.target, [("content-type", "application/json")], encode v.compactChars⟩)
    {x : Except SendError Reply} :
    Ends (Wire s) (Net.sendJson address v timeout) log x log' ↔
      ∃ p t response, EmbeddingApi.respond s request = some p ∧ Traces p t response ∧
        x = .ok response.toReply ∧ log' = log ++ [request] := by
  subst hrequest
  rw [Net.sendJson_of_parse? hurl]
  refine ends_call.trans ?_
  constructor
  · rintro ⟨reply, log₁, hreply, hdone⟩
    obtain ⟨rfl, rfl⟩ := ends_done.mp hdone
    cases hreply with
    | send hp ht => exact ⟨_, _, _, hp, ht, rfl, rfl⟩
  · rintro ⟨p, t, response, hp, ht, rfl, rfl⟩
    exact ⟨_, _, Wire.send hp ht, ends_done.mpr ⟨rfl, rfl⟩⟩

/-- **A batch is sent once, and what the service answers is read.** -/
theorem ends_attempt (hreach : Reaches c) :
    Ends (Wire s) (c.attempt ⟨texts, c.model⟩) log r log' ↔
      ∃ t response, Traces (EmbeddingApi.embeddings s (c.request texts)) t response ∧
        r = readReply texts.length response.toReply ∧ log' = log ++ [c.request texts] := by
  obtain ⟨url, hurl, htarget⟩ := Option.map_eq_some_iff.mp hreach
  have hrequest : c.request texts = ⟨"POST", url.target, [("content-type", "application/json")],
      encode (EmbeddingRequest.mk texts c.model).toJson.compactChars⟩ := by
    rw [request, htarget]
  rw [attempt, ends_bind]
  simp only [ends_sendJson hurl hrequest, EmbeddingApi.respond_request]
  constructor
  · rintro ⟨_, _, ⟨p, t, response, hp, ht, rfl, rfl⟩, hdone⟩
    obtain ⟨rfl, rfl⟩ := ends_done.mp hdone
    obtain rfl := Option.some.inj hp
    obtain ⟨inner, u, v, rfl, hinner, hopen⟩ := traces_bind.mp ht
    obtain ⟨rfl, rfl⟩ := traces_done.mp hopen
    exact ⟨u, inner, hinner, rfl, rfl⟩
  · rintro ⟨t, response, ht, rfl, rfl⟩
    refine ⟨_, _, ⟨_, t ++ [], (response.forMethod "POST").open, rfl, ?_, rfl, rfl⟩,
      ends_done.mpr ⟨rfl, rfl⟩⟩
    exact traces_bind.mpr ⟨response, t, [], rfl, ht, traces_done.mpr ⟨rfl, rfl⟩⟩

/-- What the service answers without its model is the same at all times. -/
theorem ends_attempt_answered (hreach : Reaches c) {response : Response}
    (hanswer : EmbeddingApi.embeddings s (c.request texts) = return response) :
    Ends (Wire s) (c.attempt ⟨texts, c.model⟩) log r log' ↔
      r = readReply texts.length response.toReply ∧ log' = log ++ [c.request texts] := by
  rw [ends_attempt hreach, hanswer]
  constructor
  · rintro ⟨t, _, ht, rfl, rfl⟩
    obtain ⟨rfl, rfl⟩ := traces_done.mp ht
    exact ⟨rfl, rfl⟩
  · rintro ⟨rfl, rfl⟩
    exact ⟨[], response, traces_done.mpr ⟨rfl, rfl⟩, rfl, rfl⟩

/-- What it answers with its model differs in its time alone, which the client does not look at. -/
theorem ends_attempt_vectors (hreach : Reaches c) {e : Embedder} {vs : List Embedding}
    (hanswer : EmbeddingApi.embeddings s (c.request texts) = EmbeddingApi.embedWith e texts)
    (hvs : e.embed texts = .ok vs) (hlength : vs.length = texts.length)
    (hsurvive : ∀ v ∈ vs, ∀ x ∈ v, Survives x)
    (hd : EmbeddingApi.dimensionsOf e vs < Decimal.twoTo 64) :
    Ends (Wire s) (c.attempt ⟨texts, c.model⟩) log r log' ↔
      r = .ok vs ∧ log' = log ++ [c.request texts] := by
  have hread : ∀ started finished : Instant, readReply texts.length
      (Response.ofJson 200 (EmbeddingResponse.mk vs e.modelName (EmbeddingApi.dimensionsOf e vs)
        (Instant.seconds (finished - started))).toJson).toReply = .ok vs := by
    intro started finished
    rw [← hlength]
    exact readReply_vectors ⟨vs, _, _, _⟩ hsurvive hd (legible_seconds _)
  rw [ends_attempt hreach, hanswer]
  simp only [EmbeddingApi.traces_embedWith hvs]
  constructor
  · rintro ⟨_, _, ⟨started, finished, rfl, rfl⟩, rfl, rfl⟩
    exact ⟨hread started finished, rfl⟩
  · rintro ⟨rfl, rfl⟩
    exact ⟨_, _, ⟨(0 : Int), (0 : Int), rfl, rfl⟩, (hread 0 0).symm, rfl⟩

/-! ## All attempts -/

section Attempts

variable {batch : EmbeddingRequest} {request : Request}
variable {x : Except EmbeddingError (List Embedding)}

/-- An outcome that is final ends the attempts, however many are left. -/
theorem ends_attempts_final
    (hattempt : ∀ {log r log'}, Ends (Wire s) (c.attempt batch) log r log' ↔
      r = x ∧ log' = log ++ [request])
    (hfinal : ∀ e, x = .error e → e.passing = false) (made further : Nat) :
    Ends (Wire s) (c.attempts batch made further) log r log' ↔
      r = x ∧ log' = log ++ [request] := by
  cases further with
  | zero => exact hattempt
  | succ n =>
    rw [attempts, ends_bind]
    constructor
    · rintro ⟨y, log₁, hy, h⟩
      obtain ⟨rfl, rfl⟩ := hattempt.mp hy
      cases y with
      | ok vs => exact ends_done.mp h
      | error e =>
        simp only [hfinal e rfl, Bool.false_eq_true, if_false] at h
        exact ends_done.mp h
    · rintro ⟨rfl, rfl⟩
      refine ⟨r, _, hattempt.mpr ⟨rfl, rfl⟩, ?_⟩
      cases r with
      | ok vs => exact ends_done.mpr ⟨rfl, rfl⟩
      | error e =>
        simp only [hfinal e rfl, Bool.false_eq_true, if_false]
        exact ends_done.mpr ⟨rfl, rfl⟩

/-- An outcome that passes is followed by another attempt until none is left. -/
theorem ends_attempts_passing {e : EmbeddingError}
    (hattempt : ∀ {log r log'}, Ends (Wire s) (c.attempt batch) log r log' ↔
      r = .error e ∧ log' = log ++ [request]) (hpassing : e.passing = true) (made further : Nat) :
    Ends (Wire s) (c.attempts batch made further) log r log' ↔
      r = .error e ∧ log' = log ++ List.replicate (further + 1) request := by
  -- the induction is on the attempts that are left, after any number of requests
  induction further generalizing made log with
  | zero => exact hattempt
  | succ n ih =>
    have happend : log ++ List.replicate (n + 1 + 1) request =
        log ++ [request] ++ List.replicate (n + 1) request := by
      rw [List.replicate_succ, List.append_assoc, List.singleton_append]
    rw [attempts, ends_bind, happend]
    constructor
    · rintro ⟨y, log₁, hy, h⟩
      obtain ⟨rfl, rfl⟩ := hattempt.mp hy
      simp only [hpassing, if_true] at h
      obtain ⟨_, log₂, hpause, h⟩ := ends_bind.mp h
      cases ends_ask.mp hpause
      exact (ih (made + 1)).mp h
    · intro h
      refine ⟨.error e, _, hattempt.mpr ⟨rfl, rfl⟩, ?_⟩
      simp only [hpassing, if_true]
      exact ends_bind.mpr ⟨(), _, ends_ask.mpr Wire.pause, (ih (made + 1)).mpr h⟩

end Attempts

/-- Texts that are some are sent as a batch. -/
theorem embed_of_ne_nil (hne : texts ≠ []) :
    c.embed texts = c.attempts ⟨texts, c.model⟩ 0 c.maxRetries := by
  rw [embed, if_neg (mt List.isEmpty_iff.mp hne)]

/-! ## Batches -/

section Batches

variable (hreach : Reaches c) (hne : texts ≠ [])
variable (hsize : (c.request texts).body.length ≤ EmbeddingApi.maxBodyBytes)
include hreach hne hsize

/-- A batch with more texts than the service takes is refused for good. -/
theorem ends_embed_tooMany (hmany : s.maxTexts < texts.length) :
    Ends (Wire s) (c.embed texts) log r log' ↔
      r = .error (refusal 400 ("Too many texts (max " ++ toString s.maxTexts ++ ")")) ∧
        log' = log ++ [c.request texts] := by
  have hanswer := EmbeddingApi.embeddings_of_tooMany (s := s)
    (EmbeddingApi.readRequest_request hsize) hne hmany
  rw [embed_of_ne_nil hne]
  apply ends_attempts_final
  · intro log r log'
    rw [ends_attempt_answered hreach hanswer, readReply_detail (by decide)]
  · intro e he
    obtain rfl := Except.error.inj he
    rfl

/-- Without a model a batch is sent until the client gives up. -/
theorem ends_embed_noModel (hfew : texts.length ≤ s.maxTexts) (hs : s.embedder = none) :
    Ends (Wire s) (c.embed texts) log r log' ↔
      r = .error (refusal 503 "Model not loaded") ∧
        log' = log ++ List.replicate (c.maxRetries + 1) (c.request texts) := by
  have hanswer := EmbeddingApi.embeddings_of_noModel
    (EmbeddingApi.readRequest_request hsize) hne hfew hs
  rw [embed_of_ne_nil hne]
  apply ends_attempts_passing
  · intro log r log'
    rw [ends_attempt_answered hreach hanswer, readReply_detail (by decide)]
  · rfl

/-- A model that has a vector for each text gives the client just these, if they survive. -/
theorem ends_embed_vectors (hfew : texts.length ≤ s.maxTexts) {e : Embedder}
    (hs : s.embedder = some e) {vs : List Embedding} (hvs : e.embed texts = .ok vs)
    (hlength : vs.length = texts.length) (hsurvive : ∀ v ∈ vs, ∀ x ∈ v, Survives x)
    (hd : EmbeddingApi.dimensionsOf e vs < Decimal.twoTo 64) :
    Ends (Wire s) (c.embed texts) log r log' ↔ r = .ok vs ∧ log' = log ++ [c.request texts] := by
  have hanswer := EmbeddingApi.embeddings_of_model
    (EmbeddingApi.readRequest_request hsize) hne hfew hs
  rw [embed_of_ne_nil hne]
  apply ends_attempts_final
  · intro log r log'
    exact ends_attempt_vectors hreach hanswer hvs hlength hsurvive hd
  · intro _ he
    cases he

end Batches

/-- **Client and service agree on every batch.** The service has feature hashing for its model. A
batch that it takes comes to the vectors of its texts, by a single request; one with too many texts
is refused, by a single request as well, whatever the model is; and if the service has no model, the
client makes all its attempts. -/
theorem ends_embed_hashing {d m : Nat} (hreach : Reaches c) (hne : texts ≠ [])
    (hsize : (c.request texts).body.length ≤ EmbeddingApi.maxBodyBytes)
    (hd : d < Decimal.twoTo 64) :
    (texts.length ≤ m →
      (∀ text ∈ texts, ∀ x ∈ Embedding.Hashing.embedText d text, Survives x) →
        ∃ vs, (Embedder.hashing d).embed texts = .ok vs ∧ (∀ v ∈ vs, v.length = max d 1) ∧
          ∀ log r log', Ends (Wire ⟨some (.hashing d), m⟩) (c.embed texts) log r log' ↔
            r = .ok vs ∧ log' = log ++ [c.request texts]) ∧
    (m < texts.length →
      ∀ e log r log', Ends (Wire ⟨e, m⟩) (c.embed texts) log r log' ↔
        r = .error (refusal 400 ("Too many texts (max " ++ toString m ++ ")")) ∧
          log' = log ++ [c.request texts]) ∧
    (texts.length ≤ m →
      ∀ log r log', Ends (Wire ⟨none, m⟩) (c.embed texts) log r log' ↔
        r = .error (refusal 503 "Model not loaded") ∧
          log' = log ++ List.replicate (c.maxRetries + 1) (c.request texts)) := by
  refine ⟨fun hfew hsurvive => ?_, fun hmany e log r log' => ?_, fun hfew log r log' => ?_⟩
  · have hvectors : ∀ v ∈ texts.map (Embedding.Hashing.embedText d), v.length = max d 1 := by
      intro v hv
      obtain ⟨text, -, rfl⟩ := List.mem_map.mp hv
      exact Embedding.Hashing.length_embedText d text
    have hdimensions : EmbeddingApi.dimensionsOf (.hashing d)
        (texts.map (Embedding.Hashing.embedText d)) = max d 1 := by
      obtain ⟨text, rest, rfl⟩ := List.exists_cons_of_ne_nil hne
      exact Embedding.Hashing.length_embedText d text
    refine ⟨_, rfl, hvectors, fun log r log' => ?_⟩
    apply ends_embed_vectors hreach hne hsize hfew rfl rfl
    · exact List.length_map _
    · intro v hv
      obtain ⟨text, htext, rfl⟩ := List.mem_map.mp hv
      exact hsurvive text htext
    · rw [hdimensions]
      exact max_lt hd (by decide)
  · exact ends_embed_tooMany hreach hne hsize hmany
  · exact ends_embed_noModel hreach hne hsize hfew rfl

/-- Two texts, sent to a service that takes as many, with a model and without, and to one that takes
only one of them. -/
theorem ends_embed_hashing_pair :
    (∃ vs, (Embedder.hashing 4).embed ["alpha beta", "gamma"] = .ok vs ∧
      Ends (Wire ⟨some (.hashing 4), 2⟩) ((ofConfig {}).embed ["alpha beta", "gamma"]) []
        (.ok vs) [(ofConfig {}).request ["alpha beta", "gamma"]]) ∧
    Ends (Wire ⟨some (.hashing 4), 1⟩) ((ofConfig {}).embed ["alpha beta", "gamma"]) []
      (.error (refusal 400 "Too many texts (max 1)"))
      [(ofConfig {}).request ["alpha beta", "gamma"]] ∧
    Ends (Wire ⟨none, 2⟩) ((ofConfig {}).embed ["alpha beta", "gamma"]) []
      (.error (refusal 503 "Model not loaded"))
      (List.replicate 4 ((ofConfig {}).request ["alpha beta", "gamma"])) := by
  have hreach : Reaches (ofConfig {}) := by decide +kernel
  have hne : ["alpha beta", "gamma"] ≠ [] := List.cons_ne_nil _ _
  have hsize : ((ofConfig {}).request ["alpha beta", "gamma"]).body.length ≤
      EmbeddingApi.maxBodyBytes := by decide +kernel
  have hsurvive : ∀ text ∈ ["alpha beta", "gamma"],
      ∀ x ∈ Embedding.Hashing.embedText 4 text, Survives x := by decide +kernel
  have hd : 4 < Decimal.twoTo 64 := by decide
  obtain ⟨hserved, -, hdown⟩ := ends_embed_hashing (m := 2) hreach hne hsize hd
  obtain ⟨vs, hvs, -, hends⟩ := hserved (by decide) hsurvive
  obtain ⟨-, hrefused, -⟩ := ends_embed_hashing (m := 1) hreach hne hsize hd
  refine ⟨⟨vs, hvs, (hends _ _ _).mpr ⟨rfl, rfl⟩⟩, ?_, ?_⟩
  · exact (hrefused (by decide) _ _ _ _).mpr ⟨rfl, rfl⟩
  · exact (hdown (by decide) _ _ _).mpr ⟨rfl, rfl⟩

end EmbeddingClient

end MarkdownIndex
