import MarkdownIndex.Embedding.Vector
import MarkdownIndex.Json.Decode

/-!
# Messages between the embedding client and the embedding service

* `EmbeddingRequest` — the texts of a batch and the model wanted for them.
* `EmbeddingResponse` — one vector a text, in order.
* Their JSON, shared by client and service so that the two cannot drift apart. Every field has a
  default.
-/

namespace MarkdownIndex

open Json

/-! ## Records -/

/-- The model that is meant when none is named. -/
def defaultModelName : String := "all-MiniLM-L6-v2"

/-- A batch of texts to embed. -/
structure EmbeddingRequest where
  /-- the texts -/
  texts : List String := []
  /-- the model wanted for them -/
  modelName : String := defaultModelName
deriving DecidableEq, Repr, Inhabited

/-- The vectors of a batch. -/
structure EmbeddingResponse where
  /-- one vector a text -/
  embeddings : List Embedding := []
  /-- the model that made them -/
  modelName : String := ""
  /-- the length of a vector -/
  dimensions : Nat := 0
  /-- seconds spent on the batch -/
  processingTime : Float := 0
deriving Inhabited

/-! ## Writing -/

/-- The 64-bit float whose text is the shortest decimal of a 32-bit one. -/
def decimalFloat (x : Float32) : Float :=
  match Decimal.single.read x.toBits.toNat with
  | .finite f =>
    let d := f.shortest
    Json.signed f.negative (Float.ofScientific d.coefficient (d.exponent < 0) d.exponent.natAbs)
  | _ => x.toFloat

/-- A coordinate as JSON: its shortest decimal as a 32-bit float. -/
def coordinateJson (x : Float32) : Json :=
  .float (decimalFloat x)

/-- A vector as JSON. -/
def Embedding.toJson (v : Embedding) : Json :=
  .array (v.map coordinateJson)

/-- A request as JSON. -/
def EmbeddingRequest.toJson (r : EmbeddingRequest) : Json := .object [
  ("texts", .array (r.texts.map .string)),
  ("model_name", .string r.modelName)]

/-- A response as JSON. -/
def EmbeddingResponse.toJson (r : EmbeddingResponse) : Json := .object [
  ("embeddings", .array (r.embeddings.map Embedding.toJson)),
  ("model_name", .string r.modelName),
  ("dimensions", .nat r.dimensions),
  ("processing_time", .float r.processingTime)]

/-! ## Reading -/

/-- The fields of a request, as far as they have been read. -/
structure EmbeddingRequest.Draft where
  /-- the texts -/
  texts : Option (List String) := none
  /-- the model -/
  modelName : Option String := none

/-- The decoder of a request. -/
def EmbeddingRequest.record : Record Draft EmbeddingRequest where
  empty := {}
  names := ["texts", "model_name"]
  field
    | "texts" => some fun n d => fill (listOf text) d.texts (fun x => { d with texts := x }) n
    | "model_name" => some fun n d => fill text d.modelName (fun x => { d with modelName := x }) n
    | _ => none
  finish d := .ok ⟨d.texts.getD [], d.modelName.getD defaultModelName⟩

/-- The fields of a response, as far as they have been read. -/
structure EmbeddingResponse.Draft where
  /-- the vectors -/
  embeddings : Option (List Embedding) := none
  /-- the model -/
  modelName : Option String := none
  /-- the length of a vector -/
  dimensions : Option Nat := none
  /-- seconds spent -/
  processingTime : Option Float := none

/-- The decoder of a response. -/
def EmbeddingResponse.record : Record Draft EmbeddingResponse where
  empty := {}
  names := ["embeddings", "model_name", "dimensions", "processing_time"]
  field
    | "embeddings" => some fun n d =>
      fill (listOf (listOf float32)) d.embeddings (fun x => { d with embeddings := x }) n
    | "model_name" => some fun n d => fill text d.modelName (fun x => { d with modelName := x }) n
    | "dimensions" =>
      some fun n d => fill (natural 64) d.dimensions (fun x => { d with dimensions := x }) n
    | "processing_time" =>
      some fun n d => fill float64 d.processingTime (fun x => { d with processingTime := x }) n
    | _ => none
  finish d := .ok
    { embeddings := d.embeddings.getD []
      modelName := d.modelName.getD ""
      dimensions := d.dimensions.getD 0
      processingTime := d.processingTime.getD 0 }

end MarkdownIndex
