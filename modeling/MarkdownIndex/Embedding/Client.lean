import MarkdownIndex.Config
import MarkdownIndex.Embedding.Failure
import MarkdownIndex.Net

/-!
# The embedding client

A batch of texts is sent to the embedding service in one request. A passing failure is followed by
another attempt, after a pause that doubles each time up to the sixth; every other outcome is final.

* `EmbeddingClient` — the service and the patience with it.
* `EmbeddingClient.attempt` — one request. A reply with another number of vectors than texts is no
  answer.
* `EmbeddingClient.embed` — as many attempts as it takes; none for an empty batch.
* `Provider` — where vectors come from: a client, or nowhere.
-/

namespace MarkdownIndex

open Http Text

/-- The embedding service and the patience with it. -/
structure EmbeddingClient where
  /-- the address that batches are sent to -/
  endpoint : String
  /-- the model that is asked for -/
  model : String
  /-- further attempts after a passing failure -/
  maxRetries : Nat
  /-- milliseconds before the first further attempt -/
  backoff : Nat
  /-- milliseconds until a request is given up -/
  timeout : Nat
deriving DecidableEq, Repr

/-- A text without slashes at its end. -/
def trimSlashes (s : String) : String :=
  String.ofList (s.toList.reverse.dropWhile (· == '/')).reverse

namespace EmbeddingClient

/-- The client of a configuration. -/
def ofConfig (c : Config.Client) : EmbeddingClient where
  endpoint := trimSlashes c.url ++ "/embeddings"
  model := c.model
  maxRetries := c.maxRetries
  backoff := c.backoff
  timeout := c.timeout * 1000

/-! ## One attempt -/

/-- The vectors of a body. -/
def vectors? (body : List UInt8) : Option (List Embedding) :=
  match Json.decodeBytes? EmbeddingResponse.record.decode body with
  | .ok r => some r.embeddings
  | .error _ => none

/-- What a reply to a batch of so many texts means. -/
def readReply (count : Nat) (r : Reply) : Except EmbeddingError (List Embedding) :=
  if r.isSuccess then
    match vectors? r.body with
    | none => .error (.invalidResponse "error decoding response body")
    | some vs =>
      if vs.length = count then .ok vs
      else .error (.invalidResponse
        ("expected " ++ toString count ++ " embeddings, got " ++ toString vs.length))
  else .error (.status r.status (String.ofList (decodeLossy r.body)))

/-- Send a batch once. -/
def attempt (c : EmbeddingClient) (batch : EmbeddingRequest) :
    Net (Except EmbeddingError (List Embedding)) := do
  match ← Net.sendJson c.endpoint batch.toJson c.timeout with
  | .error e => return .error (.transport e.message)
  | .ok r => return readReply batch.texts.length r

/-! ## All attempts -/

/-- Milliseconds before a further attempt, counted from one. -/
def delay (c : EmbeddingClient) (further : Nat) : Nat :=
  c.backoff * Decimal.twoTo (min (further - 1) 5)

/-- Send a batch until the outcome is final or no attempt is left; `further` attempts come after
the first one. -/
def attempts (c : EmbeddingClient) (batch : EmbeddingRequest) (made : Nat) :
    (further : Nat) → Net (Except EmbeddingError (List Embedding))
  | 0 => c.attempt batch
  | n + 1 => do
    match ← c.attempt batch with
    | .ok vs => return .ok vs
    | .error e =>
      if e.passing then do
        Net.pause (c.delay (made + 1))
        c.attempts batch (made + 1) n
      else return .error e

/-- The vectors of some texts. -/
def embed (c : EmbeddingClient) (texts : List String) :
    Net (Except EmbeddingError (List Embedding)) :=
  if texts.isEmpty then return .ok []
  else c.attempts ⟨texts, c.model⟩ 0 c.maxRetries

end EmbeddingClient

/-! ## Providers -/

/-- Where vectors come from. -/
inductive Provider where
  /-- from the embedding service -/
  | http (client : EmbeddingClient)
  /-- from nowhere; full-text search does without -/
  | disabled
deriving DecidableEq, Repr

/-- There is no such provider. -/
structure UnknownProvider where
  /-- the name that was given -/
  name : String
deriving DecidableEq, Repr

/-- The wording of an error. -/
def UnknownProvider.message (e : UnknownProvider) : String :=
  "Unknown embedding provider: " ++ e.name

namespace Provider

/-- The provider of a configuration. -/
def ofConfig (c : Config.Client) : Except UnknownProvider Provider :=
  match c.provider with
  | "http" => .ok (.http (.ofConfig c))
  | "disabled" => .ok .disabled
  | other => .error ⟨other⟩

/-- The model that is asked for. -/
def modelName : Provider → String
  | .http c => c.model
  | .disabled => "disabled"

/-- The vectors of some texts. -/
def embed (p : Provider) (texts : List String) : Net (Except EmbeddingError (List Embedding)) :=
  match p with
  | .http c => c.embed texts
  | .disabled => return .error .disabled

/-- The vector of a single text. -/
def embedQuery (p : Provider) (text : String) : Net (Except EmbeddingError Embedding) := do
  match ← p.embed [text] with
  | .error e => return .error e
  | .ok [] => return .error (.invalidResponse "No embeddings returned")
  | .ok (v :: _) => return .ok v

end Provider

end MarkdownIndex
