import MarkdownIndex.Embedding.Message
import MarkdownIndex.Proofs.Json.Decoding

/-!
# Messages read back: what one side writes, the other side has

Client and service send each other records as JSON. A record is decoded field by field, from the
trees that the texts of its fields are read as.

* `EmbeddingRequest.decode?_toJson` — **a request arrives as it was,** whatever its texts are.
* `Survives`, `Legible` — what the text of a coordinate, and that of a time, has to tell.
* `EmbeddingResponse.decode?_toJson` — **a response arrives with its vectors** if their coordinates
  survive; only its time may be another.
-/

namespace MarkdownIndex

open Json

/-! ## Requests -/

/-- **A request is decoded as what it was,** whatever its texts and its model are. -/
theorem EmbeddingRequest.decode?_toJson (r : EmbeddingRequest) :
    Json.decode? record.decode r.toJson.compactChars = .ok r := by
  have htexts : listOf text (Json.array (r.texts.map .string)).tree = .ok r.texts := by
    apply listOf_tree
    intro s _
    rfl
  have hmodel : text (Json.string r.modelName).tree = .ok r.modelName := rfl
  rw [decode?_compactChars]
  simp only [toJson, tree, memberTrees, Record.decode, Record.decodeWith] at htexts hmodel ⊢
  rw [Record.addMembers_cons rfl (fill_none htexts), Record.addMembers_cons rfl (fill_none hmodel)]
  rfl

/-! ## Responses -/

/-- A coordinate is read back from its text. -/
def Survives (x : Float32) : Prop :=
  Json.decode? float32 (coordinateJson x).compactChars = .ok x

theorem toOption_eq_some_iff {ε α : Type} {r : Except ε α} {a : α} :
    r.toOption = some a ↔ r = .ok a := by
  cases r with
  | ok b => simp [Except.toOption]
  | error e => simp [Except.toOption]

instance : DecidablePred Survives := fun _ => decidable_of_iff _ toOption_eq_some_iff

/-- A time has a text that is read as some number. -/
def Legible (t : Float) : Prop := ∃ n, (Json.float t).tree = .number (some n)

/-- Seconds are legible, of whatever instant: they are too few for the text to overflow. -/
theorem legible_seconds (t : Instant) : Legible t.seconds := by
  obtain ⟨l, n, hl, hn⟩ := exists_value?_floatText (Decimal.counted_seconds t)
  refine ⟨n, ?_⟩
  rw [← hn]
  exact Number.tree_of_spells hl

theorem Embedding.listOf_toJson {v : Embedding} (h : ∀ x ∈ v, Survives x) :
    listOf float32 v.toJson.tree = .ok v := by
  apply listOf_tree
  intro x hx
  have hsurvives := h x hx
  rwa [Survives, decode?_compactChars] at hsurvives

/-- **A response is decoded as what it was,** but for the exact time, if its coordinates survive. -/
theorem EmbeddingResponse.decode?_toJson {r : EmbeddingResponse}
    (hv : ∀ v ∈ r.embeddings, ∀ x ∈ v, Survives x) (hd : r.dimensions < Decimal.twoTo 64)
    (ht : Legible r.processingTime) :
    ∃ t, Json.decode? record.decode r.toJson.compactChars =
      .ok { r with processingTime := t } := by
  obtain ⟨n, hn⟩ := ht
  have hembeddings :
      listOf (listOf float32) (Json.array (r.embeddings.map Embedding.toJson)).tree =
        .ok r.embeddings := by
    apply listOf_tree
    intro v hmem
    exact Embedding.listOf_toJson (hv v hmem)
  have hmodel : text (Json.string r.modelName).tree = .ok r.modelName := rfl
  have hdimensions := natural_tree hd
  have htime : float64 (Json.float r.processingTime).tree = .ok n.toFloat := by
    rw [hn]
    rfl
  refine ⟨n.toFloat, ?_⟩
  rw [decode?_compactChars]
  simp only [toJson, tree, memberTrees, Record.decode, Record.decodeWith] at hembeddings hmodel ⊢
  rw [Record.addMembers_cons rfl (fill_none hembeddings),
    Record.addMembers_cons rfl (fill_none hmodel),
    Record.addMembers_cons rfl (fill_none hdimensions),
    Record.addMembers_cons rfl (fill_none htime)]
  rfl

end MarkdownIndex
