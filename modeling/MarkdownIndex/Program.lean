/-!
# Programs: what is asked for, and what is done with the answers

The index reads files, asks a store and calls services. None of that happens in its definitions: a
program only says what it asks for and how it goes on with each answer.

* `Interface` — what can be asked for, and the type of each answer.
* `Program I` — a tree of requests of an interface; it ends with a result. There is no other way for
  a program to learn or to change anything.
* `Program.run` — a program whose requests are answered in some monad: by a pure state in a proof,
  by another program, or by the machine.
-/

namespace MarkdownIndex

/-! ## Interfaces -/

/-- What can be asked for. -/
structure Interface where
  /-- a request -/
  Call : Type
  /-- the type of its answer -/
  Reply : Call → Type

/-- A program over an interface. -/
inductive Program (I : Interface) (α : Type) : Type where
  /-- end with a result -/
  | done (a : α)
  /-- ask, and go on with the answer -/
  | call (c : I.Call) (next : I.Reply c → Program I α)

namespace Program

variable {I : Interface} {α β γ : Type}

/-- Go on with the result of a program. -/
protected def bind : Program I α → (α → Program I β) → Program I β
  | done a, f => f a
  | call c next, f => call c fun r => (next r).bind f

instance : Monad (Program I) where
  pure := done
  bind := Program.bind

/-- The program that asks once and ends with the answer. -/
def ask (c : I.Call) : Program I (I.Reply c) := call c done

@[simp] theorem pure_eq (a : α) : (pure a : Program I α) = done a := rfl

@[simp] theorem done_bind (a : α) (f : α → Program I β) : (done a >>= f) = f a := rfl

@[simp] theorem call_bind (c : I.Call) (next : I.Reply c → Program I α) (f : α → Program I β) :
    (call c next >>= f) = call c fun r => next r >>= f := rfl

@[simp] theorem ask_bind (c : I.Call) (f : I.Reply c → Program I β) :
    (ask c >>= f) = call c f := rfl

/-- **Ending with the result adds nothing.** -/
theorem bind_done (p : Program I α) : p >>= done = p := by
  induction p with
  | done a => rfl
  | call c next ih => exact congrArg (call c) (funext ih)

/-- **Sequencing is associative.** -/
theorem bind_assoc (p : Program I α) (f : α → Program I β) (g : β → Program I γ) :
    (p >>= f) >>= g = p >>= fun a => f a >>= g := by
  induction p with
  | done a => rfl
  | call c next ih => exact congrArg (call c) (funext ih)

instance : LawfulMonad (Program I) := LawfulMonad.mk'
  _ bind_done (fun _ _ => rfl) bind_assoc

/-! ## Running -/

/-- A program whose requests are answered in a monad. -/
def run {m : Type → Type} [Monad m] (answer : (c : I.Call) → m (I.Reply c)) :
    Program I α → m α
  | done a => pure a
  | call c next => do
    let r ← answer c
    (next r).run answer

@[simp] theorem run_done {m : Type → Type} [Monad m] (answer : (c : I.Call) → m (I.Reply c))
    (a : α) : (done a).run answer = pure a := rfl

@[simp] theorem run_call {m : Type → Type} [Monad m] (answer : (c : I.Call) → m (I.Reply c))
    (c : I.Call) (next : I.Reply c → Program I α) :
    (call c next).run answer = answer c >>= fun r => (next r).run answer := rfl

end Program

end MarkdownIndex
