import Mathlib.Data.List.Induction
import Stencil.Machine

/-!
# What becomes of emitted items

A machine is used in any order: handlers are registered, steps are taken, and the slot is emptied.
An `Account` is the machine with two lists beside it, the items that the slot has accepted and those
that have been taken out of it. They differ by what is in the slot, whatever the handlers emit, and
also behind a step that panicked halfway.

Results:
* `offer_eq`: the slot keeps what it holds, or the first item, and is too small for two.
* `process_unregistered`, `process_full`, `process_fits`: what one step does.
* `Account.balanced_step`: a step keeps the account, and `Account.balanced_after` a run.
* `Account.handlers_after`: each state has the handler that was registered last.
* `items_accounted`: all of it together.
-/

namespace Stencil.Machine

variable {σ ρ τ : Type}

/-! ## The slot -/

/-- The items that a slot accepts, of those that are put into it one by one. -/
def accepted : Option τ → List τ → List τ
  | _, [] => []
  | none, item :: items => item :: accepted (some item) items
  | some _, _ :: _ => []

theorem accepted_some (held : τ) (items : List τ) : accepted (some held) items = [] := by
  cases items <;> rfl

/-- No item is lost in the slot, and none is doubled. -/
theorem toList_offer (slot : Option τ) (items : List τ) :
    (offer slot items).1.toList = slot.toList ++ accepted slot items := by
  induction items generalizing slot with
  | nil => cases slot <;> simp [offer, accepted]
  | cons item items ih =>
    cases slot with
    | none => rw [offer, accepted, ih, accepted_some]; rfl
    | some held => rw [offer, accepted, List.append_nil]

/-- The slot keeps what it holds, or else the first item. All are accepted if there is room. -/
theorem offer_eq (slot : Option τ) (items : List τ) :
    offer slot items =
      (slot.or items.head?, decide (slot.toList.length + items.length ≤ 1)) := by
  match slot, items with
  | none, [] => rfl
  | none, [item] => rfl
  | none, first :: second :: items =>
    have htwo : ¬(none : Option τ).toList.length + (first :: second :: items).length ≤ 1 := by
      simp only [List.length_cons]
      omega
    rw [decide_eq_false htwo]
    rfl
  | some held, [] => rfl
  | some held, first :: items =>
    have htwo : ¬(some held).toList.length + (first :: items).length ≤ 1 := by
      simp only [Option.toList_some, List.length_cons]
      omega
    rw [decide_eq_false htwo]
    rfl

/-! ## One step -/

/-- The items that the slot accepts in the next step. -/
def accepts (m : Machine σ ρ τ) : List τ :=
  match m.handlers m.state with
  | none => []
  | some handler => accepted m.slot (handler m.data).emitted

section

variable {m : Machine σ ρ τ} {handler : Handler σ ρ τ}

theorem process_unregistered (h : m.handlers m.state = none) :
    m.process = (.error (.unregistered m.state), m) := by
  unfold process
  rw [h]

/-- Too many items: state and data stay, and the first item that was accepted is in the slot. -/
theorem process_full (h : m.handlers m.state = some handler)
    (hfull : 1 < m.slot.toList.length + (handler m.data).emitted.length) :
    m.process =
      (.error .slotFull, { m with slot := m.slot.or (handler m.data).emitted.head? }) := by
  have hoffer := offer_eq m.slot (handler m.data).emitted
  rw [decide_eq_false (by omega)] at hoffer
  unfold process
  simp only [h, hoffer]

theorem process_fits (h : m.handlers m.state = some handler)
    (hfits : m.slot.toList.length + (handler m.data).emitted.length ≤ 1) :
    m.process = (.ok (handler m.data).data.error, ⟨(handler m.data).state, (handler m.data).data,
      m.handlers, m.slot.or (handler m.data).emitted.head?⟩) := by
  have hoffer := offer_eq m.slot (handler m.data).emitted
  rw [decide_eq_true hfits] at hoffer
  unfold process
  simp only [h, hoffer]

end

/-- A step registers nothing. -/
theorem handlers_process (m : Machine σ ρ τ) : m.process.2.handlers = m.handlers := by
  cases h : m.handlers m.state with
  | none => rw [process_unregistered h]
  | some handler =>
    by_cases hfits : m.slot.toList.length + (handler m.data).emitted.length ≤ 1
    · rw [process_fits h hfits]
    · rw [process_full h (by omega)]

/-- What is in the slot behind a step, also behind one that panics. -/
theorem slot_process (m : Machine σ ρ τ) :
    m.process.2.slot.toList = m.slot.toList ++ m.accepts := by
  unfold accepts
  cases h : m.handlers m.state with
  | none => rw [process_unregistered h, List.append_nil]
  | some handler =>
    have hslot : m.process.2.slot = (offer m.slot (handler m.data).emitted).1 := by
      rw [offer_eq]
      by_cases hfits : m.slot.toList.length + (handler m.data).emitted.length ≤ 1
      · rw [process_fits h hfits]
      · rw [process_full h (by omega)]
    rw [hslot, toList_offer]

/-! ## Runs -/

/-- What can be done with a machine. -/
inductive Step (σ ρ τ : Type) where
  | add (state : σ) (handler : Handler σ ρ τ)
  | process
  | take

/-- The handler that a step registers for a state. -/
def Step.registered [DecidableEq σ] (state : σ) : Step σ ρ τ → Option (Handler σ ρ τ)
  | add s handler => if state = s then some handler else none
  | _ => none

/-- The handler registered last for a state. -/
def lastHandler [DecidableEq σ] (state : σ) (steps : List (Step σ ρ τ)) :
    Option (Handler σ ρ τ) :=
  steps.reverse.findSome? (Step.registered state)

/-- A machine, with the items that its slot has accepted and those that have been taken. -/
structure Account (σ ρ τ : Type) where
  machine : Machine σ ρ τ
  accepted : List τ
  taken : List τ

namespace Account

/-- A new machine. -/
def opened (state : σ) (raw : ρ) : Account σ ρ τ := ⟨.new state raw, [], []⟩

variable [DecidableEq σ]

def step (a : Account σ ρ τ) : Step σ ρ τ → Account σ ρ τ
  | .add state handler => { a with machine := (a.machine.add state handler).2 }
  | .process =>
    { a with machine := a.machine.process.2, accepted := a.accepted ++ a.machine.accepts }
  | .take => { a with machine := a.machine.take.2, taken := a.taken ++ a.machine.take.1.toList }

def after (a : Account σ ρ τ) (steps : List (Step σ ρ τ)) : Account σ ρ τ := steps.foldl step a

theorem after_concat (a : Account σ ρ τ) (steps : List (Step σ ρ τ)) (last : Step σ ρ τ) :
    a.after (steps ++ [last]) = (a.after steps).step last := by
  unfold after
  rw [List.foldl_append]
  rfl

/-- What has been accepted has been taken, or is in the slot, in this order. -/
def Balanced (a : Account σ ρ τ) : Prop := a.taken ++ a.machine.slot.toList = a.accepted

theorem balanced_step {a : Account σ ρ τ} (h : a.Balanced) (s : Step σ ρ τ) :
    (a.step s).Balanced := by
  unfold Balanced at h ⊢
  cases s with
  | add state handler => exact h
  | process =>
    show a.taken ++ a.machine.process.2.slot.toList = a.accepted ++ a.machine.accepts
    rw [slot_process, ← List.append_assoc, h]
  | take =>
    show (a.taken ++ a.machine.slot.toList) ++ [] = a.accepted
    rw [List.append_nil, h]

theorem balanced_after {a : Account σ ρ τ} (h : a.Balanced) (steps : List (Step σ ρ τ)) :
    (a.after steps).Balanced := by
  induction steps generalizing a with
  | nil => exact h
  | cons first rest ih => exact ih (balanced_step h first)

theorem handlers_step (a : Account σ ρ τ) (s : Step σ ρ τ) (state : σ) :
    (a.step s).machine.handlers state = (s.registered state).or (a.machine.handlers state) := by
  cases s with
  | add s handler =>
    show (if state = s then some handler else a.machine.handlers state) =
      (if state = s then some handler else none).or (a.machine.handlers state)
    split <;> rfl
  | process => exact congrFun (handlers_process a.machine) state
  | take => rfl

theorem handlers_after (start : σ) (raw : ρ) (steps : List (Step σ ρ τ)) (state : σ) :
    ((opened start raw).after steps).machine.handlers state = lastHandler state steps := by
  induction steps using List.reverseRecOn with
  | nil => rfl
  | append_singleton steps last ih =>
    rw [after_concat, handlers_step, ih, lastHandler, lastHandler, List.reverse_append,
      List.reverse_singleton, List.singleton_append, List.findSome?_cons]
    cases last.registered state <;> rfl

end Account

/-- **Items.** Whatever is done with a new machine, the items taken so far and the one in the slot
are those that were accepted, in order. Behind it, each state has the handler that was registered
last, and to register one more panics if there is one. A step without a handler panics and does
nothing. A step with too many items panics and leaves state and data alone, and what is in the slot
is what was there before, or the first of them. Any other step replaces state and data, and tells
the error of the new data if it has one. -/
theorem items_accounted [DecidableEq σ] (start : σ) (raw : ρ) (steps : List (Step σ ρ τ)) :
    let a := (Account.opened start raw).after steps
    let m := a.machine
    a.taken ++ m.slot.toList = a.accepted ∧ m.slot.toList.length ≤ 1 ∧
    (∀ state, m.handlers state = lastHandler state steps) ∧
    (∀ state handler, (m.add state handler).1 =
      if (lastHandler state steps).isSome then some (.duplicate state) else none) ∧
    (lastHandler m.state steps = none → m.process = (.error (.unregistered m.state), m)) ∧
    ∀ handler, lastHandler m.state steps = some handler →
      let t := handler m.data
      (1 < m.slot.toList.length + t.emitted.length →
        m.process = (.error .slotFull, { m with slot := m.slot.or t.emitted.head? })) ∧
      (m.slot.toList.length + t.emitted.length ≤ 1 →
        m.process = (.ok t.data.error,
          ⟨t.state, t.data, m.handlers, m.slot.or t.emitted.head?⟩)) := by
  intro a m
  have hhandlers : ∀ state, m.handlers state = lastHandler state steps :=
    Account.handlers_after start raw steps
  have hopened : (Account.opened (τ := τ) start raw).Balanced := rfl
  refine ⟨Account.balanced_after hopened steps, ?_, hhandlers, ?_, ?_, ?_⟩
  · cases m.slot <;> simp
  · intro state handler
    rw [← hhandlers]
    rfl
  · intro h
    rw [← hhandlers] at h
    exact process_unregistered h
  · intro handler h
    rw [← hhandlers] at h
    exact ⟨process_full h, process_fits h⟩

/-- A handler that emits a number as many times as it says, and goes on to the state of it. -/
def copies : Handler Nat Nat Nat := fun data => ⟨.replicate data.raw data.raw, data.raw, .ok 0⟩

/-- Of two items, the first is kept, and a step on top of it changes nothing. With one item the step
is taken, to a state that has no handler. -/
theorem items_accounted_copies :
    let full := ((Account.opened 0 2).after [.add 0 copies, .process]).machine
    let fresh := ((Account.opened 0 1).after [.add 0 copies]).machine
    let stuck := ((Account.opened 0 1).after [.add 0 copies, .process]).machine
    (1 < full.slot.toList.length + (copies full.data).emitted.length ∧ full.slot = some 2 ∧
      full.process = (.error .slotFull, full)) ∧
    (fresh.slot.toList.length + (copies fresh.data).emitted.length ≤ 1 ∧
      fresh.process = (.ok none, ⟨1, .ok 0, fresh.handlers, some 1⟩)) ∧
    (lastHandler stuck.state [.add 0 copies, .process] = none ∧
      stuck.process = (.error (.unregistered 1), stuck)) := by
  intro full fresh stuck
  have hfull : 1 < full.slot.toList.length + (copies full.data).emitted.length := by decide
  have hfresh : fresh.slot.toList.length + (copies fresh.data).emitted.length ≤ 1 := by decide
  have hstuck : lastHandler stuck.state [.add 0 copies, .process] = none := rfl
  exact ⟨⟨hfull, rfl,
      ((items_accounted 0 2 [.add 0 copies, .process]).2.2.2.2.2 copies rfl).1 hfull⟩,
    ⟨hfresh, ((items_accounted 0 1 [.add 0 copies]).2.2.2.2.2 copies rfl).2 hfresh⟩,
    ⟨hstuck, (items_accounted 0 1 [.add 0 copies, .process]).2.2.2.2.1 hstuck⟩⟩

end Stencil.Machine
