/-!
# Failed embeddings

* `EmbeddingError` — why texts got no vectors.
* `EmbeddingError.passing` — another attempt could succeed.
* `EmbeddingError.message` — its wording.
-/

namespace MarkdownIndex

/-- Why texts got no vectors. -/
inductive EmbeddingError where
  /-- no embedding service is configured -/
  | disabled
  /-- the service could not be reached or did not answer in time -/
  | transport (reason : String)
  /-- the service answered with another status than success -/
  | status (code : Nat) (body : String)
  /-- the answer of the service has no vectors, or another number of them -/
  | invalidResponse (reason : String)
deriving DecidableEq, Repr, Inhabited

namespace EmbeddingError

/-- Another attempt could succeed: the service could not be reached, was asked too often, or is at
fault itself. -/
def passing : EmbeddingError → Bool
  | .transport _ => true
  | .status code _ => code == 429 || 500 ≤ code
  | .disabled => false
  | .invalidResponse _ => false

/-- The wording of an error. -/
def message : EmbeddingError → String
  | .disabled => "embedding provider is disabled"
  | .transport reason => "embedding request failed: " ++ reason
  | .status code body => "embedding service returned " ++ toString code ++ ": " ++ body
  | .invalidResponse reason => "invalid embedding response: " ++ reason

end EmbeddingError

end MarkdownIndex
