import Mathlib.Logic.Function.Basic
import MarkdownIndex.Proofs.Program

/-!
# Traces: what a program asks, in order, and what it is answered

How a program ends depends on its surroundings; what it asks depends on the answers alone. A trace
is the list of its requests with their answers. So one inversion of the traces of a program serves
in all surroundings, and also where several programs take turns.

* `Exchange` — a request with its answer.
* `Program.Traces` — a program with given answers: its trace and its result.
* `Gives` — surroundings that give the answers of a trace; `ends_iff_traces` — a program ends by a
  trace of its own that the surroundings give.
* `Alongside` — programs side by side in the same surroundings, one request of one of them at a
  time, in any order; `alongside_iff` — every program has its own trace in the common one.
-/

namespace MarkdownIndex

/-- A request with its answer. -/
structure Exchange (I : Interface) where
  /-- what is asked -/
  call : I.Call
  /-- what is answered -/
  reply : I.Reply call

/-- Vectors are asked for. -/
abbrev Exchange.embedded (texts : List String) (r : Except EmbeddingError (List Embedding)) :
    Exchange Work.interface := ⟨.embed texts, r⟩

variable {I : Interface} {σ τ ι α β ε : Type} {E : Surroundings I σ} {s s' : σ}
variable {t u : List (Exchange I)} {a : α}

/-! ## Traces of a program -/

namespace Program

/-- The surroundings that may answer anything, and write it down. -/
def recording : Surroundings I (List (Exchange I)) := fun t c r t' => t' = t ++ [⟨c, r⟩]

/-- With these answers the program asks these requests and ends with this result. -/
def Traces (p : Program I α) (t : List (Exchange I)) (a : α) : Prop := Ends recording p [] a t

theorem traces_done {b : α} : Traces (I := I) (done a) t b ↔ b = a ∧ t = [] := ends_done

/-- What has been written down before does not matter. -/
theorem ends_recording {p : Program I α} :
    Ends recording p t a u ↔ ∃ v, u = t ++ v ∧ Traces p v a := by
  induction p generalizing t u with
  | done b =>
    rw [ends_done]
    constructor
    · rintro ⟨rfl, rfl⟩
      exact ⟨[], (List.append_nil _).symm, Ends.done _ _⟩
    · rintro ⟨v, rfl, hv⟩
      obtain ⟨rfl, rfl⟩ := traces_done.mp hv
      exact ⟨rfl, List.append_nil _⟩
  | call c next ih =>
    rw [ends_call]
    constructor
    · rintro ⟨r, t₁, rfl, hrest⟩
      obtain ⟨v, rfl, hv⟩ := (ih r).mp hrest
      refine ⟨⟨c, r⟩ :: v, by rw [List.append_assoc, List.singleton_append], ?_⟩
      exact Ends.call rfl ((ih r).mpr ⟨v, rfl, hv⟩)
    · rintro ⟨v, rfl, hv⟩
      obtain ⟨r, t₁, rfl, hrest⟩ := ends_call.mp hv
      obtain ⟨v', rfl, hv'⟩ := (ih r).mp hrest
      refine ⟨r, _, rfl, (ih r).mpr ⟨v', ?_, hv'⟩⟩
      rw [List.nil_append, List.append_assoc]

theorem traces_call {c : I.Call} {next : I.Reply c → Program I α} :
    Traces (call c next) t a ↔ ∃ r u, t = ⟨c, r⟩ :: u ∧ Traces (next r) u a := by
  rw [Traces, ends_call]
  constructor
  · rintro ⟨r, t₁, rfl, hrest⟩
    obtain ⟨v, rfl, hv⟩ := ends_recording.mp hrest
    exact ⟨r, v, rfl, hv⟩
  · rintro ⟨r, u, rfl, hu⟩
    exact ⟨r, _, rfl, ends_recording.mpr ⟨u, rfl, hu⟩⟩

theorem traces_ask {c : I.Call} {r : I.Reply c} : Traces (ask c) t r ↔ t = [⟨c, r⟩] := ends_ask

/-- A program after another asks after that one. -/
theorem traces_bind {p : Program I α} {f : α → Program I β} {b : β} :
    Traces (p >>= f) t b ↔ ∃ a u v, t = u ++ v ∧ Traces p u a ∧ Traces (f a) v b := by
  rw [Traces, ends_bind]
  constructor
  · rintro ⟨a, u, hp, hf⟩
    obtain ⟨v, rfl, hv⟩ := ends_recording.mp hf
    exact ⟨a, u, v, rfl, hp, hv⟩
  · rintro ⟨a, u, v, rfl, hp, hf⟩
    exact ⟨a, u, hp, ends_recording.mpr ⟨v, rfl, hf⟩⟩

/-- A program whose result is reworded asks nothing more. -/
theorem traces_bind_pure {p : Program I α} {f : α → β} {b : β} :
    Traces (p >>= fun a => pure (f a)) t b ↔ ∃ a, Traces p t a ∧ b = f a := by
  rw [traces_bind]
  constructor
  · rintro ⟨a, u, v, rfl, hp, hdone⟩
    obtain ⟨rfl, rfl⟩ := traces_done.mp hdone
    exact ⟨a, (List.append_nil u).symm ▸ hp, rfl⟩
  · rintro ⟨a, hp, rfl⟩
    exact ⟨a, t, [], (List.append_nil t).symm, hp, traces_done.mpr ⟨rfl, rfl⟩⟩

/-- A program goes on in the same way as long as it gets the same answers, and ends with them. -/
theorem Traces.of_append_eq {p : Program I α} {b : α} {u' v v' : List (Exchange I)}
    (h : Traces p u a) (h' : Traces p u' b) (heq : u ++ v = u' ++ v') : u = u' ∧ a = b := by
  induction p generalizing u u' with
  | done c =>
    obtain ⟨rfl, rfl⟩ := traces_done.mp h
    obtain ⟨rfl, rfl⟩ := traces_done.mp h'
    exact ⟨rfl, rfl⟩
  | call c next ih =>
    obtain ⟨r, w, rfl, hw⟩ := traces_call.mp h
    obtain ⟨r', w', rfl, hw'⟩ := traces_call.mp h'
    obtain ⟨hhead, htail⟩ := List.cons.inj heq
    obtain rfl := eq_of_heq (Exchange.mk.inj hhead).2
    obtain ⟨rfl, rfl⟩ := ih r hw hw' htail
    exact ⟨rfl, rfl⟩

/-- A program has one result for the same answers. -/
theorem Traces.unique {p : Program I α} {b : α} (h : Traces p t a) (h' : Traces p t b) :
    a = b :=
  (h.of_append_eq h' (rfl : t ++ [] = t ++ [])).2

section Failing

variable {x : ExceptT ε (Program I) α} {r : Except ε α}

theorem traces_run_pure : Traces (pure a : ExceptT ε (Program I) α).run t r ↔ r = .ok a ∧ t = [] :=
  ends_run_pure

theorem traces_run_throw {e : ε} :
    Traces (throw e : ExceptT ε (Program I) α).run t r ↔ r = .error e ∧ t = [] :=
  ends_run_throw

theorem traces_run_lift {p : Program I α} :
    Traces (liftM p : ExceptT ε (Program I) α).run t r ↔ ∃ a, Traces p t a ∧ r = .ok a :=
  ends_run_lift

theorem traces_run_bind {f : α → ExceptT ε (Program I) β} {r : Except ε β} :
    Traces (x >>= f).run t r ↔
      (∃ a u v, t = u ++ v ∧ Traces x.run u (.ok a) ∧ Traces (f a).run v r) ∨
        ∃ e, Traces x.run t (.error e) ∧ r = .error e := by
  rw [Traces, ends_run_bind]
  refine or_congr ?_ Iff.rfl
  constructor
  · rintro ⟨a, u, hx, hf⟩
    obtain ⟨v, rfl, hv⟩ := ends_recording.mp hf
    exact ⟨a, u, v, rfl, hx, hv⟩
  · rintro ⟨a, u, v, rfl, hx, hf⟩
    exact ⟨a, u, hx, ends_recording.mpr ⟨v, rfl, hf⟩⟩

theorem traces_run_tryCatch {f : ε → ExceptT ε (Program I) α} :
    Traces (tryCatch x f).run t r ↔
      (∃ a, Traces x.run t (.ok a) ∧ r = .ok a) ∨
        ∃ e u v, t = u ++ v ∧ Traces x.run u (.error e) ∧ Traces (f e).run v r := by
  rw [Traces, ends_run_tryCatch]
  refine or_congr Iff.rfl ?_
  constructor
  · rintro ⟨e, u, hx, hf⟩
    obtain ⟨v, rfl, hv⟩ := ends_recording.mp hf
    exact ⟨e, u, v, rfl, hx, hv⟩
  · rintro ⟨e, u, v, rfl, hx, hf⟩
    exact ⟨e, u, hx, ends_recording.mpr ⟨v, rfl, hf⟩⟩

/-- A program that asks once is gone on from if the answer is no failure. -/
theorem traces_run_once_bind {ρ : Type} {e : ρ → Exchange I} {k : ρ → Except ε α}
    (hx : ∀ {t r}, Traces x.run t r ↔ ∃ a, t = [e a] ∧ r = k a)
    {f : α → ExceptT ε (Program I) β} {r : Except ε β} :
    Traces (x >>= f).run t r ↔
      ∃ a, (∃ b u, k a = .ok b ∧ t = e a :: u ∧ Traces (f b).run u r) ∨
        ∃ c, k a = .error c ∧ t = [e a] ∧ r = .error c := by
  rw [traces_run_bind]
  constructor
  · rintro (⟨b, u, v, rfl, hb, hv⟩ | ⟨c, hc, rfl⟩)
    · obtain ⟨a, rfl, ha⟩ := hx.mp hb
      exact ⟨a, Or.inl ⟨b, v, ha.symm, rfl, hv⟩⟩
    · obtain ⟨a, rfl, ha⟩ := hx.mp hc
      exact ⟨a, Or.inr ⟨c, ha.symm, rfl, rfl⟩⟩
  · rintro ⟨a, ⟨b, u, ha, rfl, hu⟩ | ⟨c, ha, rfl, rfl⟩⟩
    · exact Or.inl ⟨b, [e a], u, rfl, hx.mpr ⟨a, rfl, ha.symm⟩, hu⟩
    · exact Or.inr ⟨c, hx.mpr ⟨a, rfl, ha.symm⟩, rfl⟩

end Failing

/-- A single request whose failure is reworded. -/
theorem traces_run_orFail {t : List (Exchange Work.interface)} {δ : Type}
    {p : Work (Except δ α)} {f : δ → ε} {r : Except ε α} :
    Traces (Work.orFail p f).run t r ↔ ∃ b, Traces p t b ∧ r = b.mapError f :=
  ends_run_orFail

end Program

/-! ## Answers of the surroundings -/

/-- The surroundings give the answers of a trace, one after the other. -/
inductive Gives (E : Surroundings I σ) : σ → List (Exchange I) → σ → Prop
  /-- no answers, no change -/
  | nil (s : σ) : Gives E s [] s
  /-- an answer, and those after it -/
  | cons {x : Exchange I} {s s₁ s₂ : σ} {t : List (Exchange I)} (h : E s x.call x.reply s₁)
    (rest : Gives E s₁ t s₂) : Gives E s (x :: t) s₂

theorem gives_nil : Gives E s [] s' ↔ s' = s := by
  constructor
  · rintro ⟨⟩
    rfl
  · rintro rfl
    exact Gives.nil s'

theorem gives_cons {x : Exchange I} :
    Gives E s (x :: t) s' ↔ ∃ s₁, E s x.call x.reply s₁ ∧ Gives E s₁ t s' := by
  constructor
  · rintro (_ | ⟨h, rest⟩)
    exact ⟨_, h, rest⟩
  · rintro ⟨s₁, h, rest⟩
    exact Gives.cons h rest

theorem gives_append : Gives E s (t ++ u) s' ↔ ∃ s₁, Gives E s t s₁ ∧ Gives E s₁ u s' := by
  induction t generalizing s with
  | nil =>
    constructor
    · exact fun h => ⟨s, Gives.nil s, h⟩
    · rintro ⟨s₁, h, hrest⟩
      obtain rfl := gives_nil.mp h
      exact hrest
  | cons x t ih =>
    rw [List.cons_append, gives_cons]
    constructor
    · rintro ⟨s₁, h, hrest⟩
      obtain ⟨s₂, ht, hu⟩ := ih.mp hrest
      exact ⟨s₂, Gives.cons h ht, hu⟩
    · rintro ⟨s₂, ht, hu⟩
      obtain ⟨s₁, h, hrest⟩ := gives_cons.mp ht
      exact ⟨s₁, h, ih.mpr ⟨s₂, hrest, hu⟩⟩

/-- Every answer of a trace is given in some state. -/
theorem Gives.of_mem (h : Gives E s t s') {x : Exchange I} (hx : x ∈ t) :
    ∃ s₁ s₂, E s₁ x.call x.reply s₂ := by
  obtain ⟨u, v, rfl⟩ := List.append_of_mem hx
  obtain ⟨s₁, -, hrest⟩ := gives_append.mp h
  obtain ⟨s₂, hgives, -⟩ := gives_cons.mp hrest
  exact ⟨s₁, s₂, hgives⟩

/-- **What every answer keeps, a trace keeps.** -/
theorem Gives.keeps {P : σ → Prop} (h : Gives E s t s')
    (hE : ∀ x ∈ t, ∀ {s s' : σ}, P s → E s x.call x.reply s' → P s') (hs : P s) : P s' := by
  induction h with
  | nil s => exact hs
  | @cons x s s₁ s₂ t h rest ih =>
    exact ih (fun y hy => hE y (List.mem_cons_of_mem x hy)) (hE x List.mem_cons_self hs h)

/-- Surroundings that show less of themselves give the same answers. -/
theorem Gives.map {E' : Surroundings I τ} (f : σ → τ)
    (hf : ∀ {s s' : σ} {c : I.Call} {r : I.Reply c}, E s c r s' → E' (f s) c r (f s'))
    (h : Gives E s t s') : Gives E' (f s) t (f s') := by
  induction h with
  | nil s => exact Gives.nil (f s)
  | cons h _ ih => exact Gives.cons (hf h) ih

/-- **A program ends by a trace of its own that the surroundings give.** -/
theorem ends_iff_traces {p : Program I α} :
    Program.Ends E p s a s' ↔ ∃ t, p.Traces t a ∧ Gives E s t s' := by
  induction p generalizing s with
  | done b =>
    rw [Program.ends_done]
    constructor
    · rintro ⟨rfl, rfl⟩
      exact ⟨[], Program.traces_done.mpr ⟨rfl, rfl⟩, Gives.nil s'⟩
    · rintro ⟨t, ht, h⟩
      obtain ⟨rfl, rfl⟩ := Program.traces_done.mp ht
      exact ⟨rfl, gives_nil.mp h⟩
  | call c next ih =>
    rw [Program.ends_call]
    constructor
    · rintro ⟨r, s₁, h, hrest⟩
      obtain ⟨t, ht, hgives⟩ := (ih r).mp hrest
      exact ⟨⟨c, r⟩ :: t, Program.traces_call.mpr ⟨r, t, rfl, ht⟩, Gives.cons h hgives⟩
    · rintro ⟨t, ht, h⟩
      obtain ⟨r, u, rfl, hu⟩ := Program.traces_call.mp ht
      obtain ⟨s₁, hr, hrest⟩ := gives_cons.mp h
      exact ⟨r, s₁, hr, (ih r).mpr ⟨u, hu, hrest⟩⟩

/-! ## Programs side by side -/

/-- What one of some programs has asked, among all exchanges. -/
def own [DecidableEq ι] (i : ι) (t : List (ι × Exchange I)) : List (Exchange I) :=
  (t.filter (·.1 = i)).map (·.2)

section Alongside

variable [DecidableEq ι] {ps : ι → Program I α} {as : ι → α} {ts us : List (ι × Exchange I)}

theorem own_cons (i j : ι) (x : Exchange I) :
    own i ((j, x) :: ts) = if j = i then x :: own i ts else own i ts := by
  rw [own, List.filter_cons]
  by_cases h : j = i
  · simp [own, h]
  · simp [own, h]

theorem own_append (i : ι) : own i (ts ++ us) = own i ts ++ own i us := by
  rw [own, List.filter_append, List.map_append, own, own]

theorem mem_own {i : ι} {x : Exchange I} : x ∈ own i ts ↔ (i, x) ∈ ts := by
  simp [own]

/-- How some programs can end that are started side by side: what has been asked, by which of them
and with which answers, their results, and the state after all. -/
inductive Alongside (E : Surroundings I σ) :
    (ι → Program I α) → σ → List (ι × Exchange I) → (ι → α) → σ → Prop
  /-- all programs have ended -/
  | done (as : ι → α) (s : σ) : Alongside E (fun i => .done (as i)) s [] as s
  /-- one of them is answered a request -/
  | call {ps : ι → Program I α} {s s₁ s₂ : σ} {ts : List (ι × Exchange I)} {as : ι → α} (i : ι)
    {c : I.Call} {next : I.Reply c → Program I α} {r : I.Reply c} (hi : ps i = .call c next)
    (h : E s c r s₁) (rest : Alongside E (Function.update ps i (next r)) s₁ ts as s₂) :
    Alongside E ps s ((i, ⟨c, r⟩) :: ts) as s₂

/-- **Every program has its own trace in the common one,** which the surroundings give; and there is
no more to running side by side. -/
theorem alongside_iff :
    Alongside E ps s ts as s' ↔
      (∀ i, (ps i).Traces (own i ts) (as i)) ∧ Gives E s (ts.map (·.2)) s' := by
  constructor
  · intro h
    induction h with
    | done as s => exact ⟨fun i => Program.traces_done.mpr ⟨rfl, rfl⟩, Gives.nil s⟩
    | @call ps s s₁ s₂ ts as i c next r hi h rest ih =>
      obtain ⟨htraces, hgives⟩ := ih
      refine ⟨fun j => ?_, Gives.cons h hgives⟩
      rcases eq_or_ne i j with rfl | hne
      · rw [own_cons, if_pos rfl, hi]
        have hown := htraces i
        rw [Function.update_self] at hown
        exact Program.traces_call.mpr ⟨r, _, rfl, hown⟩
      · rw [own_cons, if_neg hne, ← Function.update_of_ne hne.symm (next r) ps]
        exact htraces j
  · rintro ⟨htraces, hgives⟩
    -- the induction is on the common trace, whose head says which program is next
    induction ts generalizing ps s with
    | nil =>
      obtain rfl := gives_nil.mp hgives
      have hps : ps = fun i => .done (as i) := by
        funext i
        have hi := htraces i
        cases hp : ps i with
        | done b =>
          rw [hp] at hi
          rw [(Program.traces_done.mp hi).1]
        | call c next =>
          rw [hp] at hi
          obtain ⟨r, u, hnil, -⟩ := Program.traces_call.mp hi
          cases hnil
      rw [hps]
      exact Alongside.done as s'
    | cons x ts ih =>
      obtain ⟨i, c, r⟩ := x
      obtain ⟨s₁, h, hrest⟩ := gives_cons.mp hgives
      have hi := htraces i
      rw [own_cons, if_pos rfl] at hi
      cases hp : ps i with
      | done b =>
        rw [hp] at hi
        cases (Program.traces_done.mp hi).2
      | call c' next =>
        rw [hp] at hi
        obtain ⟨r', u, hcons, hu⟩ := Program.traces_call.mp hi
        obtain ⟨rfl, hr⟩ := Exchange.mk.inj (List.cons.inj hcons).1
        obtain rfl := eq_of_heq hr
        rw [← (List.cons.inj hcons).2] at hu
        refine Alongside.call i hp h (ih (fun j => ?_) hrest)
        rcases eq_or_ne i j with rfl | hne
        · rw [Function.update_self]
          exact hu
        · rw [Function.update_of_ne hne.symm]
          have hj := htraces j
          rwa [own_cons, if_neg hne] at hj

end Alongside

end MarkdownIndex
