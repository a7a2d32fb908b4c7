import MarkdownIndex.Embedding.Embedder
import MarkdownIndex.Host
import MarkdownIndex.Http.MediaType
import MarkdownIndex.Http.Route

/-!
# The embedding service

* `Endpoint` — `/embeddings`, `/health`, and `/models`.
* `EmbeddingService` — the model, if one could be loaded, and the bound on texts in a request.
* `BodyError`, `readRequest` — a batch out of a request: the media type, the size and the JSON of
  the body are checked in that order.
* `respond` — the answer to a request. Without a model, batches and the health of the service come
  with status 503.
-/

namespace MarkdownIndex

/-- What the service works with. -/
structure EmbeddingService where
  /-- the model, if one could be loaded -/
  embedder : Option Embedder
  /-- the greatest number of texts in a request -/
  maxTexts : Nat

namespace EmbeddingApi

open Http Text

/-! ## Endpoints -/

/-- What the service can be asked. -/
inductive Endpoint where
  /-- vectors for a batch of texts -/
  | embeddings
  /-- the state of the model -/
  | health
  /-- the models that the service knows of -/
  | models
deriving DecidableEq, Repr

/-- The endpoint at a path. -/
def endpoint? : String → Option Endpoint
  | "/embeddings" => some .embeddings
  | "/health" => some .health
  | "/models" => some .models
  | _ => none

/-- The method of an endpoint. -/
def Endpoint.accepts : Endpoint → Accepts
  | .embeddings => .post
  | _ => .get

/-! ## Batches -/

/-- Why a request holds no batch. -/
inductive BodyError where
  /-- the body is not said to be JSON -/
  | notJsonType
  /-- the body is too long -/
  | tooLong
  /-- the body is not JSON -/
  | malformed
  /-- the JSON is not of the right shape -/
  | mismatch
deriving DecidableEq, Repr

/-- The wording of an error. -/
def BodyError.message : BodyError → String
  | .notJsonType => "Expected request with \x60Content-Type: application/json\x60"
  | .tooLong => "Failed to buffer the request body: length limit exceeded"
  | .malformed => "Failed to parse the request body as JSON"
  | .mismatch => "Failed to deserialize the JSON body into the target type"

/-- The greatest length of a body in bytes. -/
def maxBodyBytes : Nat := 2 * 1024 * 1024

/-- The body of a request is said to be JSON. -/
def isJson (r : Request) : Bool :=
  match (r.header? "content-type").bind MediaType.read? with
  | some t => t.isJson
  | none => false

/-- The batch of a request. -/
def readRequest (r : Request) : Except BodyError EmbeddingRequest :=
  if !isJson r then .error .notJsonType
  else if maxBodyBytes < r.body.length then .error .tooLong
  else match Json.decodeBytes? EmbeddingRequest.record.decode r.body with
    | .ok batch => .ok batch
    | .error .malformed => .error .malformed
    | .error .mismatch => .error .mismatch

/-! ## Answers -/

/-- The length of the vectors of an answer; without any it is that of the model. -/
def dimensionsOf (e : Embedder) : List Embedding → Nat
  | [] => e.dimensions
  | v :: _ => v.length

/-- Embed a batch with a model and tell how long it took. -/
def embedWith (e : Embedder) (texts : List String) : Program Host.interface Response := do
  let started : Instant ← Program.ask (I := Host.interface) .now
  match e.embed texts with
  | .error reason => return .detail 500 ("Embedding generation failed: " ++ reason)
  | .ok vectors =>
    let finished : Instant ← Program.ask (I := Host.interface) .now
    return .ofJson 200 (EmbeddingResponse.mk vectors e.modelName (dimensionsOf e vectors)
      (Instant.seconds (finished - started))).toJson

/-- The answer to a batch. -/
def embeddings (s : EmbeddingService) (r : Request) : Program Host.interface Response :=
  match readRequest r with
  | .error e => return .detail 400 e.message
  | .ok batch =>
    if batch.texts.isEmpty then return .detail 400 "No texts provided"
    else if s.maxTexts < batch.texts.length then
      return .detail 400 ("Too many texts (max " ++ toString s.maxTexts ++ ")")
    else match s.embedder with
      | none => return .detail 503 "Model not loaded"
      | some e => embedWith e batch.texts

/-- The state of the model. -/
def health (s : EmbeddingService) : Response :=
  .ofJson (if s.embedder.isSome then 200 else 503) (.object [
    ("status", .string (if s.embedder.isSome then "healthy" else "unhealthy")),
    ("model_loaded", .bool s.embedder.isSome),
    ("model_name", Json.ofOption (fun e => .string e.modelName) s.embedder),
    ("device", .string ((s.embedder.map (·.device)).getD "cpu")),
    ("dimensions", Json.ofOption (fun e => .nat e.dimensions) s.embedder)])

/-- The models that the service knows of, and the one it has. -/
def models (s : EmbeddingService) : Response :=
  .ofJson 200 (.object [
    ("available_models", .array (availableModels.map ModelInfo.toJson)),
    ("current_model", Json.ofOption (fun e => .string e.modelName) s.embedder)])

/-- The answer of an endpoint. -/
def answer (s : EmbeddingService) (r : Request) : Endpoint → Program Host.interface Response
  | .embeddings => embeddings s r
  | .health => return health s
  | .models => return models s

/-- The answer to a request; none if its target cannot be read. -/
def respond (s : EmbeddingService) (r : Request) : Option (Program Host.interface Response) :=
  (Target.read? r.target).map fun t =>
    dispatchOpen r.method (endpoint? t.path) Endpoint.accepts (answer s r)

end EmbeddingApi

end MarkdownIndex
