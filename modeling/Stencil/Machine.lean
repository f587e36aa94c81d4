import Stencil.Error

/-!
# A step machine with one output slot

A `Machine` holds a state, data and a table of handlers, one for each registered state. A step hands
the data to the handler of the state, and replaces state and data by what the handler returns. On
the way the handler may put items into a slot, which holds one item until it is taken. Data may
carry an error, which the step then reports.

Three things go wrong without an error: a state is registered twice, a state without a handler is to
take a step, and an item is put into a full slot. They are a `Panic` and leave the state and the
data alone. A second handler replaces the first all the same, and an item that was accepted stays.
-/

namespace Stencil

namespace Machine

structure Data (ρ : Type) where
  error : Option Error
  raw : ρ

def Data.ok {ρ : Type} (raw : ρ) : Data ρ := ⟨none, raw⟩

def Data.failed {ρ : Type} (raw : ρ) (error : Error) : Data ρ := ⟨some error, raw⟩

/-- What a handler does: the items it puts into the slot, and the state and data it returns. -/
structure Transition (σ ρ τ : Type) where
  emitted : List τ
  state : σ
  data : Data ρ

abbrev Handler (σ ρ τ : Type) := Data ρ → Transition σ ρ τ

inductive Panic (σ : Type) where
  | duplicate (state : σ)
  | unregistered (state : σ)
  | slotFull

def Panic.message {σ : Type} (describe : σ → String) : Panic σ → String
  | .duplicate s => s!"duplicate handler registered for state {describe s}"
  | .unregistered s => s!"no handler registered for state {describe s}"
  | .slotFull => "a transition may emit at most one item"

/-- Puts items into a slot one by one (`emit`): the slot, and whether all were accepted. -/
def offer {τ : Type} : Option τ → List τ → Option τ × Bool
  | slot, [] => (slot, true)
  | none, item :: items => offer (some item) items
  | some held, _ :: _ => (some held, false)

end Machine

structure Machine (σ ρ τ : Type) where
  state : σ
  data : Machine.Data ρ
  handlers : σ → Option (Machine.Handler σ ρ τ)
  slot : Option τ

namespace Machine

variable {σ ρ τ : Type}

def new (state : σ) (raw : ρ) : Machine σ ρ τ := ⟨state, .ok raw, fun _ => none, none⟩

/-- Starts with a handler for each state. -/
def ofTable (state : σ) (raw : ρ) (table : σ → Handler σ ρ τ) : Machine σ ρ τ :=
  ⟨state, .ok raw, fun s => some (table s), none⟩

/-- Registers a handler. -/
def add [DecidableEq σ] (m : Machine σ ρ τ) (state : σ) (handler : Handler σ ρ τ) :
    Option (Panic σ) × Machine σ ρ τ :=
  let panic := if (m.handlers state).isSome then some (.duplicate state) else none
  (panic, { m with handlers := fun s => if s = state then some handler else m.handlers s })

/-- Takes one step, and gives the error of the new data. -/
def process (m : Machine σ ρ τ) : Except (Panic σ) (Option Error) × Machine σ ρ τ :=
  match m.handlers m.state with
  | none => (.error (.unregistered m.state), m)
  | some handler =>
    let t := handler m.data
    match offer m.slot t.emitted with
    | (slot, false) => (.error .slotFull, { m with slot })
    | (slot, true) => (.ok t.data.error, { m with state := t.state, data := t.data, slot })

/-- Empties the slot. -/
def take (m : Machine σ ρ τ) : Option τ × Machine σ ρ τ := (m.slot, { m with slot := none })

end Machine

end Stencil
