import Stencil.Error.Raised

/-!
# Deferred computations

A `Deferred` is a computation that runs when its result is first asked for, and not again: the
result is kept, also if it is an error. All who hold it share it. To run it in the background is to
ask for the result earlier. Who asks while it runs waits for it, so that asking is one step here.
Errors are those that can be seen, unless `ε` says otherwise.

A handle is the place of a computation, so that a handle and its clones share one. Who asks a handle
for the result gets one of his own: an error is cloned. To spawn leaves a job behind, which asks for
the result at some later moment, and lets nobody know.
-/

namespace Stencil

inductive Deferred (m : Type → Type) (α : Type) (ε : Type := Error) where
  | pending (compute : m (Except ε α))
  | done (result : Except ε α)

namespace Deferred

variable {m : Type → Type} {α ε : Type}

/-- The result is there. -/
def isDone : Deferred m α ε → Bool
  | pending _ => false
  | done _ => true

/-- The result, and what holds it from now on. -/
def force [Monad m] : Deferred m α ε → m (Except ε α × Deferred m α ε)
  | pending compute => do
    let result ← compute
    return (result, done result)
  | done result => return (result, done result)

/-- How a diagnostic shows it, given how it shows a result. -/
def describe (result : Except ε α → String) : Deferred m α ε → String
  | pending _ => "Deferred(<pending>)"
  | done r => s!"Deferred({result r})"

end Deferred

/-! ## Handles -/

structure Shared (m : Type → Type) (α : Type) where
  cells : List (Deferred m α Raised)
  /-- The place of each handle. -/
  handles : List Nat
  /-- The places of the jobs that are still to run. -/
  jobs : List Nat

namespace Shared

/-- What can be done with a handle, and what can happen. -/
inductive Step where
  | clone (handle : Nat)
  | force (handle : Nat)
  | spawn (handle : Nat)
  /-- One of the jobs that are left runs. -/
  | run (job : Nat)
  | isDone (handle : Nat)
deriving Repr, DecidableEq

inductive Answer (α : Type) where
  | cloned
  | result (r : Except Raised α)
  | spawned
  | ran
  | isDone (b : Bool)

variable {m : Type → Type} [Monad m] {α : Type}

/-- One computation with one handle. -/
def start (compute : m (Except Raised α)) : Shared m α := ⟨[.pending compute], [0], []⟩

/-- The result at a place, which is there from now on. -/
def forceAt (s : Shared m α) (place : Nat) : OptionT m (Except Raised α × Shared m α) := do
  let (result, d) ← (← liftOption s.cells[place]?).force
  return (result, { s with cells := s.cells.set place d })

/-- Takes one step, if there is such a handle or job. -/
def step (s : Shared m α) : Step → OptionT m (Answer α × Shared m α)
  | .clone handle => do
    let place ← liftOption s.handles[handle]?
    return (.cloned, { s with handles := s.handles ++ [place] })
  | .force handle => do
    let (result, s) ← s.forceAt (← liftOption s.handles[handle]?)
    return (.result (result.mapError Raised.clone), s)
  | .spawn handle => do
    let place ← liftOption s.handles[handle]?
    return (.spawned, { s with jobs := s.jobs ++ [place] })
  | .run job => do
    let (_, s) ← s.forceAt (← liftOption s.jobs[job]?)
    return (.ran, { s with jobs := s.jobs.eraseIdx job })
  | .isDone handle => do
    let d ← liftOption s.cells[(← liftOption s.handles[handle]?)]?
    return (.isDone d.isDone, s)

end Shared

end Stencil
