import MarkdownIndex.Work

/-!
# Endings: what may come of a program

What a program asks is answered by its **surroundings**. Their state may change with every answer,
and they may have a choice of answers, for example to refuse a request. So a program can end in
several ways, and what holds of the program holds of all of them.

* `Surroundings` — the answers that may be given in a state, with the state after each.
* `Program.Ends` — how a program can end: its result and the state after it.
* `exists_ends`, `Ends.keeps` — it does end if every request has an answer, and it keeps what every
  answer keeps.
* `ends_run` — a program whose requests are answered by others.
* `ends_bind`, `ends_run_bind`, `ends_run_tryCatch` and so on — the endings of a program that is
  made of others; so no proof has to look into a tree of requests.
-/

namespace MarkdownIndex

/-- The answers that may be given to a request in a state, with the state after each. -/
abbrev Surroundings (I : Interface) (σ : Type) : Type :=
  σ → (c : I.Call) → I.Reply c → σ → Prop

namespace Program

variable {I : Interface} {σ α β δ ε : Type} {E : Surroundings I σ} {s s' : σ}

/-- How a program can end that is started in a state: its result and the state after it. -/
inductive Ends (E : Surroundings I σ) : Program I α → σ → α → σ → Prop
  /-- a result is the end -/
  | done (a : α) (s : σ) : Ends E (.done a) s a s
  /-- a request is answered, and the program goes on -/
  | call {c : I.Call} {next : I.Reply c → Program I α} {s s₁ s₂ : σ} {r : I.Reply c} {a : α}
      (h : E s c r s₁) (rest : Ends E (next r) s₁ a s₂) : Ends E (.call c next) s a s₂

theorem ends_done {a b : α} : Ends E (done a) s b s' ↔ b = a ∧ s' = s := by
  constructor
  · rintro ⟨⟩
    exact ⟨rfl, rfl⟩
  · rintro ⟨rfl, rfl⟩
    exact Ends.done b s'

theorem ends_call {c : I.Call} {next : I.Reply c → Program I α} {a : α} :
    Ends E (call c next) s a s' ↔ ∃ r s₁, E s c r s₁ ∧ Ends E (next r) s₁ a s' := by
  constructor
  · rintro (_ | ⟨h, rest⟩)
    exact ⟨_, _, h, rest⟩
  · rintro ⟨r, s₁, h, rest⟩
    exact Ends.call h rest

theorem ends_ask {c : I.Call} {r : I.Reply c} : Ends E (ask c) s r s' ↔ E s c r s' := by
  rw [ask, ends_call]
  constructor
  · rintro ⟨r', s₁, h, rest⟩
    obtain ⟨rfl, rfl⟩ := ends_done.mp rest
    exact h
  · exact fun h => ⟨r, s', h, Ends.done r s'⟩

/-- A program after another starts where that one ends. -/
theorem ends_bind {p : Program I α} {f : α → Program I β} {b : β} :
    Ends E (p >>= f) s b s' ↔ ∃ a s₁, Ends E p s a s₁ ∧ Ends E (f a) s₁ b s' := by
  -- the induction is on the first program, whose end may lie at any depth
  induction p generalizing s with
  | done a =>
    rw [done_bind]
    constructor
    · exact fun h => ⟨a, s, Ends.done a s, h⟩
    · rintro ⟨a', s₁, ha, h⟩
      obtain ⟨rfl, rfl⟩ := ends_done.mp ha
      exact h
  | call c next ih =>
    rw [call_bind, ends_call]
    constructor
    · rintro ⟨r, s₁, hr, h⟩
      obtain ⟨a, s₂, ha, hb⟩ := (ih r).mp h
      exact ⟨a, s₂, Ends.call hr ha, hb⟩
    · rintro ⟨a, s₂, ha, hb⟩
      obtain ⟨r, s₁, hr, hrest⟩ := ends_call.mp ha
      exact ⟨r, s₁, hr, (ih r).mpr ⟨a, s₂, hrest, hb⟩⟩

/-- **A program ends whenever every request has an answer.** -/
theorem exists_ends (hE : ∀ (s : σ) (c : I.Call), ∃ r s', E s c r s') (p : Program I α) (s : σ) :
    ∃ a s', Ends E p s a s' := by
  induction p generalizing s with
  | done a => exact ⟨a, s, Ends.done a s⟩
  | call c next ih =>
    obtain ⟨r, s₁, h⟩ := hE s c
    obtain ⟨a, s₂, hrest⟩ := ih r s₁
    exact ⟨a, s₂, Ends.call h hrest⟩

/-- **What every answer keeps, a program keeps.** -/
theorem Ends.keeps {P : σ → Prop} (hE : ∀ {s s' : σ} {c : I.Call} {r : I.Reply c},
    P s → E s c r s' → P s') {p : Program I α} {a : α} (h : Ends E p s a s') (hs : P s) : P s' := by
  induction h with
  | done a s => exact hs
  | call h _ ih => exact ih (hE hs h)

/-- A program whose requests are answered by other programs ends as it does where their endings are
the answers. -/
theorem ends_run {J : Interface} {p : Program J α} {answer : (c : J.Call) → Program I (J.Reply c)}
    {a : α} :
    Ends E (p.run answer) s a s' ↔ Ends (fun s c r s' => Ends E (answer c) s r s') p s a s' := by
  induction p generalizing s with
  | done b => exact ends_done.trans ends_done.symm
  | call c next ih =>
    rw [run_call, ends_bind, ends_call]
    exact exists_congr fun r => exists_congr fun s₁ => and_congr_right fun _ => ih r

/-! ## Programs that may fail -/

section Failing

variable {x : ExceptT ε (Program I) α} {r : Except ε α}

theorem ends_run_pure {a : α} :
    Ends E (pure a : ExceptT ε (Program I) α).run s r s' ↔ r = .ok a ∧ s' = s :=
  ends_done

theorem ends_run_throw {e : ε} :
    Ends E (throw e : ExceptT ε (Program I) α).run s r s' ↔ r = .error e ∧ s' = s :=
  ends_done

/-- A program that cannot fail, among those that may. -/
theorem ends_run_lift {p : Program I α} :
    Ends E (liftM p : ExceptT ε (Program I) α).run s r s' ↔
      ∃ a, Ends E p s a s' ∧ r = .ok a := by
  refine Iff.trans (ends_bind (p := p) (f := fun a => done (Except.ok a))) ?_
  constructor
  · rintro ⟨a, s₁, ha, h⟩
    obtain ⟨rfl, rfl⟩ := ends_done.mp h
    exact ⟨a, ha, rfl⟩
  · rintro ⟨a, ha, rfl⟩
    exact ⟨a, s', ha, Ends.done _ s'⟩

/-- A program that may fail is gone on from if it does not, else its failure is the end. -/
theorem ends_run_bind {f : α → ExceptT ε (Program I) β} {r : Except ε β} :
    Ends E (x >>= f).run s r s' ↔
      (∃ a s₁, Ends E x.run s (.ok a) s₁ ∧ Ends E (f a).run s₁ r s') ∨
        ∃ e, Ends E x.run s (.error e) s' ∧ r = .error e := by
  refine Iff.trans (ends_bind (p := x.run) (f := ExceptT.bindCont f)) ?_
  constructor
  · rintro ⟨a | a, s₁, ha, h⟩
    · obtain ⟨rfl, rfl⟩ := ends_done.mp h
      exact Or.inr ⟨a, ha, rfl⟩
    · exact Or.inl ⟨a, s₁, ha, h⟩
  · rintro (⟨a, s₁, ha, h⟩ | ⟨e, he, rfl⟩)
    · exact ⟨.ok a, s₁, ha, h⟩
    · exact ⟨.error e, s', he, Ends.done _ s'⟩

/-- A failure that is caught is gone on from. -/
theorem ends_run_tryCatch {f : ε → ExceptT ε (Program I) α} :
    Ends E (tryCatch x f).run s r s' ↔
      (∃ a, Ends E x.run s (.ok a) s' ∧ r = .ok a) ∨
        ∃ e s₁, Ends E x.run s (.error e) s₁ ∧ Ends E (f e).run s₁ r s' := by
  refine Iff.trans (ends_bind (p := x.run)) ?_
  constructor
  · rintro ⟨a | a, s₁, ha, h⟩
    · exact Or.inr ⟨a, s₁, ha, h⟩
    · obtain ⟨rfl, rfl⟩ := ends_done.mp h
      exact Or.inl ⟨a, ha, rfl⟩
  · rintro (⟨a, ha, rfl⟩ | ⟨e, s₁, he, h⟩)
    · exact ⟨.ok a, s', ha, Ends.done _ s'⟩
    · exact ⟨.error e, s₁, he, h⟩

end Failing

/-- Rewording failures makes none. -/
theorem mapError_eq_ok_iff {x : Except δ α} {f : δ → ε} {a : α} :
    x.mapError f = .ok a ↔ x = .ok a := by
  cases x with
  | ok b =>
    constructor
    · intro h
      exact congrArg Except.ok (Except.ok.inj h)
    · rintro ⟨⟩
      rfl
  | error d => exact iff_of_false (fun h => nomatch h) fun h => nomatch h

theorem mapError_eq_error_iff {x : Except δ α} {f : δ → ε} {e : ε} :
    x.mapError f = .error e ↔ ∃ d, x = .error d ∧ e = f d := by
  cases x with
  | ok b => exact iff_of_false (fun h => nomatch h) fun ⟨_, h, _⟩ => nomatch h
  | error d =>
    constructor
    · intro h
      exact ⟨d, rfl, (Except.error.inj h).symm⟩
    · rintro ⟨_, ⟨⟩, rfl⟩
      rfl

/-- Work whose failure is reworded. -/
theorem ends_run_orFail {E : Surroundings Work.interface σ} {p : Work (Except δ α)} {f : δ → ε}
    {r : Except ε α} :
    Ends E (Work.orFail p f).run s r s' ↔
      ∃ a, Ends E p s a s' ∧ r = a.mapError f := by
  refine Iff.trans (ends_bind (p := p) (f := fun a => done (a.mapError f))) ?_
  constructor
  · rintro ⟨a, s₁, ha, h⟩
    obtain ⟨rfl, rfl⟩ := ends_done.mp h
    exact ⟨a, ha, rfl⟩
  · rintro ⟨a, ha, rfl⟩
    exact ⟨a, s', ha, Ends.done _ s'⟩

end Program

end MarkdownIndex
