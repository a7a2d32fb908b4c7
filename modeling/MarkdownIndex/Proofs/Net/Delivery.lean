import MarkdownIndex.Net.Delivery
import MarkdownIndex.Proofs.Program.Trace

/-!
# Deliveries: who asks, on the wire

A request that is sent elsewhere stays what it is, or is asked for in another way; but whoever it
tells of, no other one is told of in its place.

* `prepare_request`, `authorizations_redirected` — what becomes of the headers that tell who asks.
* `traces_follow` — one request on the wire, and those that follow from its reply.
* `authorizations_of_follow` — **every request on the wire tells who asks as the first one does, or
  does not tell it at all.**
* `Exchange.Sends` — what goes over the wire for a request to the network; `exists_sends` — there is
  always something; `authorizations_of_sends` — and what it tells of who asks.
-/

namespace MarkdownIndex

open Http Program

/-! ## Headers -/

namespace Http.Request

variable {r : Request} {status : Nat} {there : Url}

theorem authorizations_anonymous (r : Request) : r.anonymous.authorizations = [] := by
  simp [anonymous, authorizations, List.filter_filter]

theorem authorizations_redirected (r : Request) (status : Nat) (there : Url) :
    (r.redirected status there).authorizations = r.authorizations := by
  unfold redirected authorizations
  split
  · refine congrArg (List.map _) ?_
    rw [List.filter_filter]
    refine List.filter_congr fun h _ => ?_
    by_cases hname : h.1 = "authorization" <;> simp [hname]
  · rfl

/-- A request without a body that fetches something goes on fetching. -/
theorem fetches_redirected (h : r.method = "GET" ∧ r.body = []) :
    (r.redirected status there).method = "GET" ∧ (r.redirected status there).body = [] := by
  unfold redirected
  split
  · simp [h.1]
  · exact h

end Http.Request

namespace Library

variable {k : Library} {left : Nat} {past : List Url} {url : Url} {r : Request}
variable {hops : List (Exchange Delivery.interface)} {reply : Except Net.Loss Http.Reply}

/-- Who asks, as it arrives at an address: the name and the password in it, and what else is
told. -/
def told (k : Library) (url : Url) (own : List String) : List String :=
  ((k.credentials url).map (·.2) ++ own).map Request.fieldValue

theorem authorizations_prepare (k : Library) (url : Url) (r : Request) :
    (k.prepare url r).authorizations = k.told url r.authorizations := by
  have hown : (k.credentials url).filter (fun h => h.1 == "authorization") = k.credentials url := by
    refine List.filter_eq_self.mpr fun h hh => ?_
    obtain ⟨s, -, rfl⟩ := List.mem_map.mp hh
    rfl
  rw [told, Request.authorizations, prepare, List.filter_map, List.map_map]
  change ((k.credentials url ++ r.headers).filter fun h => h.1 == "authorization").map _ = _
  rw [List.filter_append, hown, List.map_append, List.map_append, Request.authorizations,
    List.map_map, List.map_map]
  rfl

theorem authorizations_sent (k : Library) (past : List Url) (url : Url) (r : Request) :
    (k.sent past url r).request.authorizations =
      if k.trusts past url then r.authorizations else [] := by
  unfold sent
  split
  · rfl
  · exact Request.authorizations_anonymous r

theorem fetches_sent (h : r.method = "GET" ∧ r.body = []) :
    (k.sent past url r).request.method = "GET" ∧ (k.sent past url r).request.body = [] := by
  unfold sent
  split
  · exact h
  · exact h

/-! ## Requests on the wire -/

/-- A reply is the end, unless it sends the request elsewhere. -/
theorem of_traces_settle {elsewhere : Nat → Url → Delivery}
    {answer : Except Net.Loss Delivery.Answer}
    (h : Traces (Delivery.settle elsewhere answer) hops reply) :
    hops = [] ∨ ∃ status there, Traces (elsewhere status there) hops reply := by
  cases answer with
  | error loss => exact Or.inl (traces_done.mp h).2
  | ok a =>
    rw [Delivery.settle] at h
    split at h
    · exact Or.inl (traces_done.mp h).2
    · exact Or.inr ⟨_, _, h⟩

/-- **One request is sent, and those that follow from its reply.** -/
theorem traces_follow (h : Traces (k.follow left past url r) hops reply) :
    ∃ answer rest, hops = ⟨k.sent past url r, answer⟩ :: rest ∧
      (rest = [] ∨ ∃ less there status, left = less + 1 ∧
        Traces (k.follow less (past ++ [url]) there (r.redirected status there)) rest reply) := by
  cases left with
  | zero =>
    obtain ⟨answer, rest, rfl, hrest⟩ := traces_call.mp h
    refine ⟨answer, rest, rfl, Or.inl ?_⟩
    rcases of_traces_settle hrest with hnil | ⟨status, there, hdone⟩
    · exact hnil
    · exact (traces_done.mp hdone).2
  | succ left =>
    obtain ⟨answer, rest, rfl, hrest⟩ := traces_call.mp h
    refine ⟨answer, rest, rfl, ?_⟩
    rcases of_traces_settle hrest with hnil | ⟨status, there, hfollow⟩
    · exact Or.inl hnil
    · exact Or.inr ⟨left, there, status, rfl, hfollow⟩

theorem length_le_of_follow (h : Traces (k.follow left past url r) hops reply) :
    hops.length ≤ left + 1 := by
  induction left generalizing past url r hops with
  | zero =>
    obtain ⟨answer, rest, rfl, rfl | ⟨less, _, _, hless, -⟩⟩ := traces_follow h
    · exact Nat.le_refl 1
    · cases hless
  | succ left ih =>
    obtain ⟨answer, rest, rfl, rfl | ⟨less, there, status, hless, hrest⟩⟩ := traces_follow h
    · exact Nat.le_add_left 1 _
    · obtain rfl := Nat.succ.inj hless
      exact Nat.succ_le_succ (ih hrest)

variable {u v : List (Exchange Delivery.interface)} {y : Exchange Delivery.interface}

/-- **Every request on the wire tells who asks as the first one does,** or does not tell it. -/
theorem authorizations_of_follow (h : Traces (k.follow left past url r) (u ++ y :: v) reply) :
    y.call.request.authorizations =
      if k.trusts (past ++ u.map (·.call.url)) y.call.url then r.authorizations else [] := by
  -- the induction is on the requests before this one
  induction u generalizing left past url r with
  | nil =>
    obtain ⟨answer, rest, heq, -⟩ := traces_follow h
    obtain ⟨rfl, -⟩ := List.cons.inj heq
    rw [List.map_nil, List.append_nil, authorizations_sent]
    rfl
  | cons x u ih =>
    obtain ⟨answer, rest, heq, hrest⟩ := traces_follow h
    obtain ⟨rfl, rfl⟩ := List.cons.inj heq
    rcases hrest with hnil | ⟨less, there, status, -, hrest⟩
    · simp at hnil
    · rw [ih hrest, Request.authorizations_redirected, List.map_cons, List.append_assoc,
        List.singleton_append]
      rfl

/-- What fetches something goes on fetching, and sends nothing but headers. -/
theorem fetches_of_follow (h : Traces (k.follow left past url r) (u ++ y :: v) reply)
    (hr : r.method = "GET" ∧ r.body = []) :
    y.call.request.method = "GET" ∧ y.call.request.body = [] := by
  induction u generalizing left past url r with
  | nil =>
    obtain ⟨answer, rest, heq, -⟩ := traces_follow h
    obtain ⟨rfl, -⟩ := List.cons.inj heq
    exact fetches_sent hr
  | cons x u ih =>
    obtain ⟨answer, rest, heq, hrest⟩ := traces_follow h
    obtain ⟨rfl, rfl⟩ := List.cons.inj heq
    rcases hrest with hnil | ⟨less, there, status, -, hrest⟩
    · simp at hnil
    · exact ih hrest (Request.fetches_redirected hr)

/-- The first request goes where it is meant to go. -/
theorem head_of_deliver (h : Traces (k.deliver url r) hops reply) :
    ∃ answer rest, hops = ⟨⟨url, k.prepare url r⟩, answer⟩ :: rest := by
  obtain ⟨answer, rest, rfl, -⟩ := traces_follow h
  have htrusts : k.trusts [] url = true := k.trusts_of_same [] url fun _ hu => nomatch hu
  exact ⟨answer, rest, by rw [sent, if_pos htrusts]⟩

/-- If its answer is the end, nothing else is sent. -/
theorem traces_deliver_of_end {a : Except Net.Loss Delivery.Answer}
    (ha : ∀ elsewhere, Delivery.settle elsewhere a = .done reply) :
    Traces (k.deliver url r) [⟨k.sent [] url (k.prepare url r), a⟩] reply := by
  have hend (elsewhere : Nat → Url → Delivery) :
      Traces (Delivery.settle elsewhere a) [] reply := by
    rw [ha]
    exact traces_done.mpr ⟨rfl, rfl⟩
  rw [deliver]
  cases k.limit with
  | zero => exact traces_call.mpr ⟨a, [], rfl, hend _⟩
  | succ left => exact traces_call.mpr ⟨a, [], rfl, hend _⟩

end Library

/-! ## Requests to the network -/

/-- What goes over the wire for a request to the network. -/
def Exchange.Sends (k : Library) :
    Exchange Net.interface → List (Exchange Delivery.interface) → Prop
  | ⟨.send url r _, reply⟩, hops => Traces (k.deliver url r) hops reply
  | ⟨.pause _, _⟩, hops => hops = []

section Sends

variable {k : Library} {url : Url} {r : Request} {timeout : Nat}
variable {reply : Except Net.Loss Http.Reply}
variable {u v : List (Exchange Delivery.interface)} {y : Exchange Delivery.interface}

/-- **Every request on the wire tells who asks as the one that is sent, or not at all.** -/
theorem authorizations_of_sends
    (h : Exchange.Sends k ⟨.send url r timeout, reply⟩ (u ++ y :: v)) :
    y.call.request.authorizations =
      if k.trusts (u.map (·.call.url)) y.call.url then k.told url r.authorizations else [] := by
  rw [← Library.authorizations_prepare]
  exact Library.authorizations_of_follow h

theorem fetches_of_sends (h : Exchange.Sends k ⟨.send url r timeout, reply⟩ (u ++ y :: v))
    (hr : r.method = "GET" ∧ r.body = []) :
    y.call.request.method = "GET" ∧ y.call.request.body = [] :=
  Library.fetches_of_follow h hr

end Sends

/-- Any reply can have come from where the request has been sent. -/
theorem exists_sends (k : Library) (x : Exchange Net.interface) : ∃ hops, x.Sends k hops := by
  obtain ⟨_ | _, reply⟩ := x
  · rename_i url r _
    cases reply with
    | error loss =>
      exact ⟨_, Library.traces_deliver_of_end (a := .error loss) fun _ => rfl⟩
    | ok reply =>
      have hnext : Delivery.Answer.next? ⟨reply, none⟩ = none := ite_self none
      refine ⟨_, Library.traces_deliver_of_end (a := .ok ⟨reply, none⟩) fun _ => ?_⟩
      simp only [Delivery.settle, hnext, pure_eq]
  · exact ⟨[], rfl⟩

end MarkdownIndex
