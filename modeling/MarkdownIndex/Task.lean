/-!
# Tasks: work in the background that can be stopped

A task is told to stop by a signal and is then waited for. It may have ended before.

* `Signal` — a flag that one side sets and the other waits for.
* `Ending`, `Task` — how a task ends, and what it does until then.
* `Task.finished`, `Task.stop` — what its owner sees of it.
-/

namespace MarkdownIndex

/-! ## Signals -/

/-- A flag with the side that may set it. -/
structure Signal where
  /-- the flag is set -/
  raised : Bool
  /-- there is somebody who could set it -/
  attended : Bool
deriving DecidableEq, Repr

/-- Waiting for a signal is over: it is raised, or nobody is left to raise it. -/
def Signal.over (s : Signal) : Bool :=
  s.raised || !s.attended

/-- A signal that has been raised. -/
def Signal.raise (s : Signal) : Signal :=
  { s with raised := true }

/-- The signal of a task whose owner is there. -/
def Signal.fresh : Signal := ⟨false, true⟩

/-! ## Tasks -/

/-- How a task ends. -/
inductive Ending where
  /-- it returns -/
  | returned
  /-- it breaks down -/
  | panicked
deriving DecidableEq, Repr

/-- What a task does. -/
inductive Body where
  /-- end without waiting -/
  | ends (e : Ending)
  /-- wait for the signal, then end -/
  | waits (e : Ending)
deriving DecidableEq, Repr

/-- A task that has been started. -/
structure Task where
  /-- what it is called -/
  name : String
  /-- what it does -/
  body : Body
  /-- the signal it listens to -/
  signal : Signal := .fresh
deriving DecidableEq, Repr

/-- A task broke down. -/
inductive TaskError where
  /-- the task with this name -/
  | panicked (name : String)
deriving DecidableEq, Repr

/-- The wording of an error. -/
def TaskError.message : TaskError → String
  | .panicked name => "task '" ++ name ++ "' panicked"

namespace Task

/-- How the task has ended, if it has. -/
def ended? (t : Task) : Option Ending :=
  match t.body with
  | .ends e => some e
  | .waits e => if t.signal.over then some e else none

/-- The task has ended. -/
def finished (t : Task) : Bool :=
  t.ended?.isSome

/-- Tell the task to stop and wait for its end. -/
def stop (t : Task) : Except TaskError Unit :=
  match { t with signal := t.signal.raise }.ended? with
  | some .panicked => .error (.panicked t.name)
  | _ => .ok ()

end Task

end MarkdownIndex
