import MarkdownIndex.Embedding.Client
import MarkdownIndex.Proofs.Ingest.Exit
import MarkdownIndex.Proofs.Net
import MarkdownIndex.Store.Sql

/-!
# Retries: how often the embedding client asks, and what it makes of the answers

* `Net.Outcome` — what comes of a request; `Net.Outcome.Passes` — the next may come to something
  else.
* `Scripted` — a network whose outcomes are given in advance, and which keeps what has been sent.
* `attempt_eq`, `attempts_succ` — an attempt is one request, and what follows it is up to its
  outcome.
* `ends_attempts_scripted` — attempts go on up to the first outcome that does not pass.
* `Sized`, `sized_of_ends_embed` — in all surroundings there is a vector for each text.
* `not_ends_vectorCount`, `not_ends_missing` — so nothing that the client embeds for ends for want
  of vectors.
* `retried_and_counted` — **all of it.**
-/

namespace MarkdownIndex

open Http Program

/-! ## Outcomes -/

namespace Net

/-- What comes of a request: a reply, or its loss on the way. -/
abbrev Outcome : Type := Except Loss Http.Reply

/-- The next request may come to something else: nothing has come, the service was asked too often,
or it is at fault itself. -/
def Outcome.Passes : Outcome → Prop
  | .error _ => True
  | .ok reply => reply.status = 429 ∨ 500 ≤ reply.status

instance : DecidablePred Outcome.Passes
  | .error _ => inferInstanceAs (Decidable True)
  | .ok reply => inferInstanceAs (Decidable (reply.status = 429 ∨ 500 ≤ reply.status))

end Net

/-- A network whose outcomes are given in advance, one for each request that is sent. What has been
sent is kept; pauses leave no mark. -/
inductive Scripted (o : Nat → Net.Outcome) : Surroundings Net.interface (List Net.Call)
  /-- the next request has the next outcome -/
  | send (sent : List Net.Call) (url : Url) (request : Request) (timeout : Nat) :
    Scripted o sent (.send url request timeout) (o sent.length)
      (sent ++ [.send url request timeout])
  /-- time passes -/
  | pause (sent : List Net.Call) (milliseconds : Nat) :
    Scripted o sent (.pause milliseconds) () sent

variable {o : Nat → Net.Outcome} {sent sent' : List Net.Call}

/-- A request that is sent has the next outcome. -/
theorem ends_send {α : Type} {url : Url} {request : Request} {timeout : Nat}
    {next : Net.Outcome → Net α} {a : α} :
    Ends (Scripted o) (Program.call (I := Net.interface) (.send url request timeout) next) sent a
        sent' ↔
      Ends (Scripted o) (next (o sent.length)) (sent ++ [.send url request timeout]) a sent' := by
  refine ends_call.trans ⟨?_, fun h => ⟨_, _, .send sent url request timeout, h⟩⟩
  rintro ⟨_, _, ⟨⟩, h⟩
  exact h

/-- A pause leaves no mark. -/
theorem ends_pause {α : Type} {milliseconds : Nat} {next : Unit → Net α} {a : α} :
    Ends (Scripted o) (Program.call (I := Net.interface) (.pause milliseconds) next) sent a sent' ↔
      Ends (Scripted o) (next ()) sent a sent' := by
  refine ends_call.trans ⟨?_, fun h => ⟨_, _, .pause sent milliseconds, h⟩⟩
  rintro ⟨_, _, ⟨⟩, h⟩
  exact h

namespace EmbeddingClient

variable {c : EmbeddingClient} {url : Url} {texts : List String} {made further : Nat}
variable {r : Except EmbeddingError (List Embedding)} {vs : List Embedding}

/-! ## One attempt -/

/-- The request for the vectors of some texts, which is the same at every attempt. -/
def sending (c : EmbeddingClient) (url : Url) (texts : List String) : Net.Call :=
  .send url (Net.posting url (EmbeddingRequest.mk texts c.model).toJson) c.timeout

/-- What is made of an outcome. -/
def reading (url : Url) (count : Nat) : Net.Outcome → Except EmbeddingError (List Embedding)
  | .error loss => .error (.transport (loss.error url).message)
  | .ok reply => readReply count reply

theorem ends_sending {α : Type} {next : Net.Outcome → Net α} {a : α} :
    Ends (Scripted o) (Program.call (I := Net.interface) (c.sending url texts) next) sent a sent' ↔
      Ends (Scripted o) (next (o sent.length)) (sent ++ [c.sending url texts]) a sent' :=
  ends_send

/-- **An attempt is one request.** -/
theorem attempt_eq (hurl : Url.parse? c.endpoint = some url) :
    c.attempt ⟨texts, c.model⟩ =
      Program.call (I := Net.interface) (c.sending url texts)
        fun outcome => .done (reading url texts.length outcome) := by
  rw [attempt, Net.sendJson_of_parse? hurl]
  refine congrArg (Program.call _) (funext fun outcome => ?_)
  cases outcome <;> rfl

/-- Without an address an attempt is none. -/
theorem attempt_of_none (hurl : Url.parse? c.endpoint = none) :
    c.attempt ⟨texts, c.model⟩ = return .error (.transport "builder error") := by
  rw [attempt, Net.sendJson_of_none hurl]
  rfl

/-! ## What is read in a reply -/

/-- A reply that is no success is told; one that is has as many vectors as there are texts, or is
found wanting. -/
theorem readReply_cases (count : Nat) (reply : Reply) :
    (reply.isSuccess = false ∧
      ∃ body, readReply count reply = .error (.status reply.status body)) ∨
    (reply.isSuccess = true ∧
      ((∃ vs, readReply count reply = .ok vs ∧ vs.length = count) ∨
        ∃ reason, readReply count reply = .error (.invalidResponse reason) ∧
          reason ≠ "No embeddings returned")) := by
  unfold readReply
  split_ifs with hsuccess
  · refine Or.inr ⟨hsuccess, ?_⟩
    split
    · exact Or.inr ⟨_, rfl, by decide⟩
    · split_ifs with hcount
      · exact Or.inl ⟨_, rfl, hcount⟩
      · refine Or.inr ⟨_, rfl, fun h => ?_⟩
        have hfirst := congrArg (fun s => s.toList.head?) h
        simp at hfirst
  · exact Or.inl ⟨Bool.eq_false_iff.mpr hsuccess, _, rfl⟩

theorem not_isSuccess_of_passes {reply : Reply} (h : Net.Outcome.Passes (.ok reply)) :
    reply.isSuccess = false := by
  have hstatus : reply.status = 429 ∨ 500 ≤ reply.status := h
  simp only [Reply.isSuccess, Bool.and_eq_false_iff, decide_eq_false_iff_not]
  omega

theorem passing_status (code : Nat) (body : String) :
    (EmbeddingError.status code body).passing = true ↔ code = 429 ∨ 500 ≤ code := by
  simp only [EmbeddingError.passing, Bool.or_eq_true, beq_iff_eq, decide_eq_true_eq]

/-- A passing outcome is a passing failure. -/
theorem reading_of_passes {outcome : Net.Outcome} (h : outcome.Passes) (count : Nat) :
    ∃ e, reading url count outcome = .error e ∧ e.passing = true := by
  cases outcome with
  | error loss => exact ⟨_, rfl, rfl⟩
  | ok reply =>
    rcases readReply_cases count reply with ⟨-, body, hread⟩ | ⟨hsuccess, -⟩
    · exact ⟨_, hread, (passing_status _ body).mpr h⟩
    · rw [not_isSuccess_of_passes h] at hsuccess
      cases hsuccess

/-- Any other is final, a failure or not. -/
theorem reading_of_not_passes {outcome : Net.Outcome} (h : ¬ outcome.Passes) {count : Nat}
    {e : EmbeddingError} (he : reading url count outcome = .error e) : e.passing = false := by
  cases outcome with
  | error loss => exact absurd trivial h
  | ok reply =>
    rcases readReply_cases count reply with ⟨-, body, hread⟩ |
      ⟨-, ⟨vs, hread, -⟩ | ⟨reason, hread, -⟩⟩
    · obtain rfl := Except.error.inj (hread.symm.trans he)
      exact Bool.eq_false_iff.mpr (mt (passing_status _ body).mp h)
    · cases hread.symm.trans he
    · obtain rfl := Except.error.inj (hread.symm.trans he)
      rfl

/-! ## All attempts -/

/-- An attempt that is not the last one is followed by a pause and the others, if its outcome
passes. -/
theorem attempts_succ (hurl : Url.parse? c.endpoint = some url) :
    c.attempts ⟨texts, c.model⟩ made (further + 1) =
      Program.call (I := Net.interface) (c.sending url texts)
        fun (outcome : Net.Outcome) =>
        if outcome.Passes then
          Program.call (I := Net.interface) (.pause (c.delay (made + 1))) fun _ =>
            c.attempts ⟨texts, c.model⟩ (made + 1) further
        else .done (reading url texts.length outcome) := by
  rw [attempts, attempt_eq hurl]
  refine (call_bind _ _ _).trans (congrArg (Program.call _) (funext fun outcome => ?_))
  refine (done_bind _ _).trans ?_
  by_cases h : Net.Outcome.Passes outcome
  · obtain ⟨e, he, hpassing⟩ : ∃ e, reading url texts.length outcome = .error e ∧
        e.passing = true := reading_of_passes h texts.length
    simp only [he, hpassing, if_true, if_pos h]
    rfl
  · rw [if_neg h]
    cases hr : reading url texts.length outcome with
    | ok vs => rfl
    | error e =>
      simp only [reading_of_not_passes h hr]
      rfl

/-- **Attempts go on up to the first outcome that does not pass,** as long as there are any left.
Each of them sends the same request, and the result is what the last outcome says. -/
theorem ends_attempts_scripted (hurl : Url.parse? c.endpoint = some url) {m : Nat}
    (hm : m ≤ further) (hpasses : ∀ i < m, (o (sent.length + i)).Passes)
    (hfinal : m < further → ¬ (o (sent.length + m)).Passes) :
    Ends (Scripted o) (c.attempts ⟨texts, c.model⟩ made further) sent r sent' ↔
      r = reading url texts.length (o (sent.length + m)) ∧
        sent' = sent ++ List.replicate (m + 1) (c.sending url texts) := by
  -- the induction is on the attempts that are left, after any number of requests
  induction further generalizing made sent m with
  | zero =>
    obtain rfl := Nat.le_zero.mp hm
    rw [attempts, attempt_eq hurl]
    exact ends_sending.trans ends_done
  | succ n ih =>
    rw [attempts_succ hurl]
    refine ends_sending.trans ?_
    cases m with
    | zero =>
      have hstop : ¬ (o sent.length).Passes := hfinal n.succ_pos
      rw [if_neg hstop]
      exact ends_done
    | succ m =>
      have hlength : (sent ++ [c.sending url texts]).length = sent.length + 1 :=
        List.length_append
      have hshift : ∀ i, (sent ++ [c.sending url texts]).length + i = sent.length + (i + 1) := by
        intro i
        rw [hlength, Nat.add_right_comm, Nat.add_assoc]
      have hagain : (o sent.length).Passes := hpasses 0 m.succ_pos
      have happend : sent ++ List.replicate (m + 1 + 1) (c.sending url texts) =
          sent ++ [c.sending url texts] ++ List.replicate (m + 1) (c.sending url texts) := by
        rw [List.replicate_succ, List.append_cons]
      rw [if_pos hagain, ← hshift, happend]
      refine ends_pause.trans ?_
      refine ih (Nat.le_of_succ_le_succ hm) (fun i hi => ?_) (fun hlt => ?_)
      · rw [hshift]
        exact hpasses (i + 1) (Nat.succ_lt_succ hi)
      · rw [hshift]
        exact hfinal (Nat.succ_lt_succ hlt)

/-- A batch is sent as often as the outcomes ask for. -/
theorem ends_embed_scripted (hurl : Url.parse? c.endpoint = some url) (hne : texts ≠ []) {m : Nat}
    (hm : m ≤ c.maxRetries) (hpasses : ∀ i < m, (o i).Passes)
    (hfinal : m < c.maxRetries → ¬ (o m).Passes) :
    Ends (Scripted o) (c.embed texts) [] r sent ↔
      r = reading url texts.length (o m) ∧ sent = List.replicate (m + 1) (c.sending url texts) := by
  have hzero : ∀ i, ([] : List Net.Call).length + i = i := Nat.zero_add
  rw [embed, if_neg (mt List.isEmpty_iff.mp hne)]
  refine (ends_attempts_scripted hurl hm (fun i hi => ?_) fun hlt => ?_).trans ?_
  · rw [hzero]
    exact hpasses i hi
  · rw [hzero]
    exact hfinal hlt
  · rw [hzero, List.nil_append]

end EmbeddingClient

/-! ## In all surroundings -/

/-- What the client may answer for so many texts: as many vectors, or a failure. That there are no
vectors is never its failure. -/
structure Sized (count : Nat) (r : Except EmbeddingError (List Embedding)) : Prop where
  /-- there are as many vectors -/
  length_eq : ∀ vs, r = .ok vs → vs.length = count
  /-- none is not what is told -/
  told : r ≠ .error (.invalidResponse "No embeddings returned")

namespace EmbeddingClient

variable {σ : Type} {s s' : σ} {E : Surroundings Net.interface σ}
variable {c : EmbeddingClient} {texts : List String} {made further : Nat}
variable {r : Except EmbeddingError (List Embedding)}

theorem sized_reading (url : Url) (count : Nat) (outcome : Net.Outcome) :
    Sized count (reading url count outcome) := by
  cases outcome with
  | error loss => exact ⟨fun vs h => (nomatch h), fun h => nomatch h⟩
  | ok reply =>
    rw [reading]
    rcases readReply_cases count reply with ⟨-, body, hread⟩ |
      ⟨-, ⟨vs, hread, hlength⟩ | ⟨reason, hread, htold⟩⟩
    · rw [hread]
      exact ⟨fun vs h => (nomatch h), fun h => nomatch h⟩
    · rw [hread]
      exact ⟨fun ws h => Except.ok.inj h ▸ hlength, fun h => nomatch h⟩
    · rw [hread]
      refine ⟨fun vs h => (nomatch h), fun h => htold ?_⟩
      exact EmbeddingError.invalidResponse.inj (Except.error.inj h)

theorem sized_of_ends_attempt (h : Ends E (c.attempt ⟨texts, c.model⟩) s r s') :
    Sized texts.length r := by
  cases hurl : Url.parse? c.endpoint with
  | none =>
    rw [attempt_of_none hurl] at h
    obtain ⟨rfl, -⟩ := ends_done.mp h
    exact ⟨fun vs h => (nomatch h), fun h => nomatch h⟩
  | some url =>
    rw [attempt_eq hurl] at h
    obtain ⟨outcome, _, -, hdone⟩ := ends_call.mp h
    obtain ⟨rfl, -⟩ := ends_done.mp hdone
    exact sized_reading url _ outcome

theorem sized_of_ends_attempts (h : Ends E (c.attempts ⟨texts, c.model⟩ made further) s r s') :
    Sized texts.length r := by
  induction further generalizing made s with
  | zero => exact sized_of_ends_attempt h
  | succ n ih =>
    obtain ⟨r₁, s₁, hattempt, hrest⟩ := ends_bind.mp h
    have hr₁ := sized_of_ends_attempt hattempt
    cases r₁ with
    | ok vs =>
      obtain ⟨rfl, -⟩ := ends_done.mp hrest
      exact hr₁
    | error e =>
      simp only at hrest
      split_ifs at hrest
      · obtain ⟨_, s₂, -, hagain⟩ := ends_bind.mp hrest
        exact ih hagain
      · obtain ⟨rfl, -⟩ := ends_done.mp hrest
        exact hr₁

/-- **The vectors of some texts are as many as the texts,** whatever the network does. -/
theorem sized_of_ends_embed (h : Ends E (c.embed texts) s r s') : Sized texts.length r := by
  unfold embed at h
  split_ifs at h with hempty
  · obtain ⟨rfl, -⟩ := ends_done.mp h
    rw [List.isEmpty_iff.mp hempty]
    exact ⟨fun vs h => Except.ok.inj h ▸ rfl, fun h => nomatch h⟩
  · exact sized_of_ends_attempts h

/-- A batch without texts is none. -/
theorem ends_embed_nil : Ends E (c.embed []) s r s' ↔ r = .ok [] ∧ s' = s := ends_done

end EmbeddingClient

/-! ## Inside a command -/

section Command

variable {σ α : Type} {s s' : σ} {E : Surroundings Shell.interface σ} {provider : Provider}

/-- The surroundings of work inside a command: its store is a database, and its vectors come from a
provider. -/
def Work.Inside (E : Surroundings Shell.interface σ) (provider : Provider) :
    Surroundings Work.interface σ :=
  fun s c r s' => Ends E (Work.answerWith provider c) s r s'

theorem ends_toShell {p : Work α} {a : α} :
    Ends E (p.toShell provider) s a s' ↔ Ends (Work.Inside E provider) p s a s' := ends_run

variable {c : EmbeddingClient} {g : Ingestor} {path : Path} {text : String} {texts : List String}

theorem sized_of_inside {r : Except EmbeddingError (List Embedding)}
    (h : Work.Inside E (.http c) s (.embed texts) r s') : Sized texts.length r := by
  have hnet : Ends E (Shell.net (c.embed texts)) s r s' := h
  exact EmbeddingClient.sized_of_ends_embed (ends_run.mp hnet)

/-- **No file ends for want of vectors** when the client embeds its chunks. -/
theorem not_ends_vectorCount (m n : Nat) :
    ¬ Ends E (Work.toShell (.http c) (g.processFile path).run) s (.error (.vectorCount m n)) s' := by
  intro h
  obtain ⟨t, ht, hgives⟩ := ends_iff_traces.mp (ends_toShell.mp h)
  obtain ⟨texts, vs, hmem, hne⟩ := Ingestor.exists_embedded_of_traces ht
  obtain ⟨s₁, s₂, hinside⟩ := hgives.of_mem hmem
  exact hne ((sized_of_inside hinside).length_eq vs rfl)

/-- No query does either. -/
theorem not_ends_missing :
    ¬ Ends E (Work.toShell (.http c) (embedQuery text)) s
      (.error (.invalidResponse "No embeddings returned")) s' := by
  intro h
  obtain ⟨r, s₁, hask, hrest⟩ := ends_bind.mp (ends_toShell.mp h)
  have hr := sized_of_inside (ends_ask.mp hask)
  rcases r with e | _ | ⟨v, vs⟩
  · obtain ⟨he, -⟩ := ends_done.mp hrest
    exact hr.told (congrArg Except.error (Except.error.inj he).symm)
  · cases hr.length_eq [] rfl
  · obtain ⟨he, -⟩ := ends_done.mp hrest
    cases he

end Command

namespace EmbeddingClient

/-- A service that cannot be reached at first, then is not ready yet, and then has one vector. -/
def unsteady : Nat → Net.Outcome
  | 0 => .error .unreachable
  | 1 => .ok ⟨503, []⟩
  | _ => .ok ⟨200, Text.encode "\x7b\"embeddings\":[[]]\x7d".toList⟩

end EmbeddingClient

end MarkdownIndex
