import MarkdownIndex.Digest.Sha256
import MarkdownIndex.Text.Token
import MarkdownIndex.Text.Utf8
import MarkdownIndex.Embedding.Vector

/-!
# Feature hashing: vectors without a model

Every token of a text adds one or takes one away from a coordinate that its SHA-256 digest picks;
the sum is scaled to length one. The same text always gives the same vector.

* `Feature`, `feature` — the coordinate and sign of a token.
* `embedText` — the vector of a text.
-/

namespace MarkdownIndex.Embedding.Hashing

open Text

/-- What a token adds to a vector. -/
structure Feature where
  /-- the coordinate -/
  index : Nat
  /-- the token counts minus one -/
  negative : Bool
deriving DecidableEq, Repr

/-- The number whose little-endian bytes are given. -/
def littleEndian : List UInt8 → Nat
  | [] => 0
  | b :: bs => b.toNat + 256 * littleEndian bs

/-- The feature of a token: the first eight bytes of its digest pick the coordinate, the lowest bit
of the ninth the sign. -/
def feature (dims : Nat) (token : List Char) : Feature :=
  let d := Sha256.digest (encode token)
  ⟨littleEndian (d.take 8) % dims, d.getD 8 0 % 2 == 1⟩

/-- A vector with a feature added. -/
def Feature.addTo (f : Feature) (v : Embedding) : Embedding :=
  v.modify f.index fun x => if f.negative then x + -1 else x + 1

/-- The dimension in use for a wanted dimension: at least one. -/
def dimensions (wanted : Nat) : Nat := max wanted 1

/-- The vector of a text. -/
def embedText (wanted : Nat) (text : String) : Embedding :=
  let dims := dimensions wanted
  let features := (tokens text.toList).map (feature dims)
  normalize (features.foldl (fun v f => f.addTo v) (List.replicate dims 0))

/-- The name under which this embedder is known. -/
def modelName : String := "feature-hashing"

end MarkdownIndex.Embedding.Hashing
