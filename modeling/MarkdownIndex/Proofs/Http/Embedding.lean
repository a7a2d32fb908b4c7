import Mathlib.Tactic.SplitIfs
import MarkdownIndex.Http.EmbeddingApi
import MarkdownIndex.Proofs.Program.Trace

/-!
# Requests for vectors: what is refused

A request is refused with status 400 if it holds no batch, or one without texts, or one with too
many texts for the service. Every other answer has another status, whatever the model does.

* `Refusal` — the answers to the requests that are refused.
* `refusal_of_traces`, `refusal_of_respond` — the endpoint for batches, and the whole service.
* `status_ne_of_single`, `one_lt_of_tooMany` — if a request may hold one text, none is refused for
  holding that one.
-/

namespace MarkdownIndex

open Http Program

namespace EmbeddingApi

variable {s : EmbeddingService} {r : Request} {a : Response} {t : List (Exchange Host.interface)}
variable {p : Program Host.interface Response} {batch : EmbeddingRequest}

/-- What is wrong with a batch of too many texts. -/
def tooManyTexts (s : EmbeddingService) : String :=
  "Too many texts (max " ++ toString s.maxTexts ++ ")"

/-- The answer to a request that is refused. -/
inductive Refusal (s : EmbeddingService) (r : Request) : Response → Prop
  /-- it holds no batch -/
  | unread {e : BodyError} (h : readRequest r = .error e) : Refusal s r (.detail 400 e.message)
  /-- the batch has no texts -/
  | empty {batch : EmbeddingRequest} (h : readRequest r = .ok batch) (hnone : batch.texts = []) :
    Refusal s r (.detail 400 "No texts provided")
  /-- the batch has more texts than the service takes -/
  | tooMany {batch : EmbeddingRequest} (h : readRequest r = .ok batch)
    (hmany : s.maxTexts < batch.texts.length) : Refusal s r (.detail 400 (tooManyTexts s))

/-- A model answers or fails. -/
theorem status_of_embedWith {e : Embedder} {texts : List String}
    (h : Traces (embedWith e texts) t a) : a.status = 200 ∨ a.status = 500 := by
  obtain ⟨started, u, v, rfl, -, hrest⟩ := traces_bind.mp h
  split at hrest
  · obtain ⟨rfl, -⟩ := traces_done.mp hrest
    exact Or.inr rfl
  · obtain ⟨finished, u, v, rfl, -, hdone⟩ := traces_bind.mp hrest
    obtain ⟨rfl, -⟩ := traces_done.mp hdone
    exact Or.inl rfl

/-- A batch is refused, or answered with another status. -/
theorem refusal_of_traces (h : Traces (embeddings s r) t a) (hstatus : a.status = 400) :
    Refusal s r a := by
  rw [embeddings] at h
  split at h
  · rename_i e hread
    obtain ⟨rfl, -⟩ := traces_done.mp h
    exact Refusal.unread hread
  · rename_i batch hread
    split_ifs at h with hnone hmany
    · obtain ⟨rfl, -⟩ := traces_done.mp h
      exact Refusal.empty hread (List.isEmpty_iff.mp hnone)
    · obtain ⟨rfl, -⟩ := traces_done.mp h
      exact Refusal.tooMany hread hmany
    · split at h
      · obtain ⟨rfl, -⟩ := traces_done.mp h
        cases hstatus
      · rcases status_of_embedWith h with h200 | h500
        · exact absurd (h200.symm.trans hstatus) (by decide)
        · exact absurd (h500.symm.trans hstatus) (by decide)

@[simp] theorem status_forMethod (method : String) (a : Response) :
    (a.forMethod method).status = a.status := by
  rw [Response.forMethod]
  split
  · rfl
  · rfl

/-- The answer to a batch has its body. -/
theorem forMethod_of_takes_post {method : String} (h : Accepts.post.takes method = true)
    (a : Response) : a.forMethod method = a := by
  obtain rfl := eq_of_beq h
  exact if_neg (by decide)

theorem status_health (s : EmbeddingService) : (health s).status ≠ 400 := by
  rw [health]
  split
  · exact show 200 ≠ 400 by decide
  · exact show 503 ≠ 400 by decide

/-- **What the service refuses** with status 400 are requests for vectors. -/
theorem refusal_of_respond (hp : respond s r = some p) (h : Traces p t a)
    (hstatus : a.status = 400) : ∃ b, Refusal s r b ∧ a = b.open := by
  obtain ⟨target, -, rfl⟩ := Option.map_eq_some_iff.mp hp
  -- what is answered on the way to the endpoint and by the other endpoints has another status
  rw [dispatchOpen] at h
  split_ifs at h with hoptions
  · obtain ⟨rfl, -⟩ := traces_done.mp h
    cases hstatus
  · obtain ⟨b, u, v, rfl, hdispatch, hopen⟩ := traces_bind.mp h
    obtain ⟨rfl, -⟩ := traces_done.mp hopen
    cases hendpoint : endpoint? target.path with
    | none =>
      rw [hendpoint, dispatch] at hdispatch
      obtain ⟨rfl, -⟩ := traces_done.mp hdispatch
      cases hstatus
    | some e =>
      rw [hendpoint, dispatch] at hdispatch
      split_ifs at hdispatch with htakes
      · obtain ⟨c, u, v, rfl, hanswer, hmethod⟩ := traces_bind.mp hdispatch
        obtain ⟨rfl, -⟩ := traces_done.mp hmethod
        have hc : c.status = 400 := (status_forMethod r.method c).symm.trans hstatus
        cases e with
        | embeddings =>
          exact ⟨c, refusal_of_traces hanswer hc, by rw [forMethod_of_takes_post htakes]⟩
        | health =>
          obtain ⟨rfl, -⟩ := traces_done.mp hanswer
          exact absurd hc (status_health s)
        | models =>
          obtain ⟨rfl, -⟩ := traces_done.mp hanswer
          cases hc
      · obtain ⟨rfl, -⟩ := traces_done.mp hdispatch
        cases hstatus

/-! ## Requests with one text -/

/-- A single text is not refused. -/
theorem status_ne_of_single (hmax : 1 ≤ s.maxTexts) (hread : readRequest r = .ok batch)
    (hone : batch.texts.length = 1) (hp : respond s r = some p) (h : Traces p t a) :
    a.status ≠ 400 := by
  intro hstatus
  obtain ⟨b, hb, -⟩ := refusal_of_respond hp h hstatus
  cases hb with
  | unread hread' => cases hread.symm.trans hread'
  | empty hread' hnone =>
    obtain rfl := Except.ok.inj (hread.symm.trans hread')
    rw [hnone] at hone
    cases hone
  | tooMany hread' hmany =>
    obtain rfl := Except.ok.inj (hread.symm.trans hread')
    omega

/-- Errors differ in their wordings. -/
theorem detail_open_inj {status : Nat} {what what' : String}
    (h : (Response.detail status what).open = (Response.detail status what').open) :
    what = what' := by
  simpa [Response.detail, Response.ofJson, Response.open] using h

theorem head?_tooManyTexts (s : EmbeddingService) : (tooManyTexts s).toList.head? = some 'T' := by
  have hhead : "Too many texts (max ".toList.head? = some 'T' := by decide
  have happend : tooManyTexts s = "Too many texts (max " ++ (toString s.maxTexts ++ ")") :=
    String.append_assoc
  rw [happend, String.toList_append, List.head?_append, hhead, Option.some_or]

/-- No other fault is worded as that of too many texts. -/
theorem message_ne_tooManyTexts (e : BodyError) : tooManyTexts s ≠ e.message := by
  intro heq
  have hhead := head?_tooManyTexts s
  rw [heq] at hhead
  cases e with
  | notJsonType => exact absurd hhead (by decide)
  | tooLong => exact absurd hhead (by decide)
  | malformed => exact absurd hhead (by decide)
  | mismatch => exact absurd hhead (by decide)

theorem tooManyTexts_ne_none : tooManyTexts s ≠ "No texts provided" := by
  intro heq
  have hhead := head?_tooManyTexts s
  rw [heq] at hhead
  exact absurd hhead (by decide)

/-- **Only for its texts is a request refused as one of too many,** and then it has some more. -/
theorem one_lt_of_tooMany (hmax : 1 ≤ s.maxTexts) (hp : respond s r = some p)
    (h : Traces p t (Response.detail 400 (tooManyTexts s)).open) :
    ∃ batch, readRequest r = .ok batch ∧ 1 < batch.texts.length := by
  obtain ⟨b, hb, hopen⟩ := refusal_of_respond hp h rfl
  cases hb with
  | unread hread => exact absurd (detail_open_inj hopen) (message_ne_tooManyTexts _)
  | empty hread hnone => exact absurd (detail_open_inj hopen) tooManyTexts_ne_none
  | tooMany hread hmany => exact ⟨_, hread, Nat.lt_of_le_of_lt hmax hmany⟩

end EmbeddingApi

end MarkdownIndex
