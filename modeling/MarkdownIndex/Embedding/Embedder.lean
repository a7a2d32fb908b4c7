import MarkdownIndex.Config
import MarkdownIndex.Embedding.Hashing

/-!
# Embedders: models that are at hand

* `Embedder` — a model that can be run.
* `Embedder.hashing` — feature hashing, which needs no model data.
* `EmbedderError`, `Embedder.ofConfig` — the embedder of a configuration.
* `ModelInfo`, `availableModels` — the models that the service knows of.
-/

namespace MarkdownIndex

/-! ## Embedders -/

/-- A model that can be run. -/
structure Embedder where
  /-- what it is called -/
  modelName : String
  /-- the length of its vectors -/
  dimensions : Nat
  /-- what it runs on -/
  device : String := "cpu"
  /-- one vector for each text, in order, or what went wrong -/
  embed : List String → Except String (List Embedding)

/-- Feature hashing into vectors of a length; zero counts as one. -/
def Embedder.hashing (wanted : Nat) : Embedder where
  modelName := Embedding.Hashing.modelName
  dimensions := Embedding.Hashing.dimensions wanted
  embed texts := .ok (texts.map (Embedding.Hashing.embedText wanted))

/-- Why there is no embedder. -/
inductive EmbedderError where
  /-- the program was built without the models of the `local` backend -/
  | noLocalModels
  /-- there is no such backend -/
  | unknownBackend (name : String)
deriving DecidableEq, Repr

/-- The wording of an error. -/
def EmbedderError.message : EmbedderError → String
  | .noLocalModels => "Local embedding backend requires --features local-embeddings-fastembed"
  | .unknownBackend name => "Unknown embedding backend: " ++ name

/-- The embedder of a configuration. -/
def Embedder.ofConfig (c : Config.Embedder) : Except EmbedderError Embedder :=
  match c.backend with
  | "hashing" => .ok (Embedder.hashing c.hashingDims)
  | "local" => .error .noLocalModels
  | other => .error (.unknownBackend other)

/-! ## Catalogue -/

/-- What is known of a model. -/
structure ModelInfo where
  /-- what it is called -/
  name : String
  /-- the length of its vectors -/
  dimensions : Nat
  /-- what it is good for -/
  description : String
deriving DecidableEq, Repr

/-- The models that the service knows of. -/
def availableModels : List ModelInfo := [
  ⟨"all-minilm-l6-v2", 384, "Fast and efficient, good for general purpose"⟩,
  ⟨"bge-small-en-v1.5", 384, "Small English model with strong retrieval quality"⟩,
  ⟨"bge-base-en-v1.5", 768, "Larger English model, higher quality, slower"⟩,
  ⟨"multilingual-e5-small", 384, "Multilingual support"⟩]

/-- A model as JSON. -/
def ModelInfo.toJson (m : ModelInfo) : Json := .object [
  ("name", .string m.name),
  ("dimensions", .nat m.dimensions),
  ("description", .string m.description)]

end MarkdownIndex
