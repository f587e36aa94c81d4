import Stencil.Deferred

/-!
# One run for all handles

A computation reads and changes a world, which may change by itself in between. Handles are cloned,
asked, and left to jobs, in any order and any number. Until the first of them asks, or the first job
runs, nothing happens. That one runs the computation, in the world as it is then, and after that the
world is left alone and all are told what came of it.

A history of one computation is a list of events. `legal` says that each of them names a handle or a
job that is there, and `Event.answer` what it is told, by what has come of the computation so far.

Results:
* `happen_waiting`, `happen_first`, `happen_held`: what one event does.
* `history_waiting`, `history_held`: histories without a first run, and behind it.
* `history_split`: a whole history, around its first run.
-/

namespace Stencil

namespace Shared

variable {ω α : Type}

/-! ## Events -/

/-- What happens to the handles of a computation, and to the world beside them. -/
inductive Event (ω : Type) where
  | step (s : Step)
  | change (f : ω → ω)

namespace Event

/-- Someone wants the result. -/
def asks : Event ω → Bool
  | step (.force _) => true
  | step (.run _) => true
  | _ => false

/-- The event names a handle or a job that is there, of so many. -/
def possible (handles jobs : Nat) : Event ω → Bool
  | step (.clone handle) => handle < handles
  | step (.force handle) => handle < handles
  | step (.spawn handle) => handle < handles
  | step (.run job) => job < jobs
  | step (.isDone handle) => handle < handles
  | change _ => true

/-- How many handles there are behind the event. -/
def handlesAfter (handles : Nat) : Event ω → Nat
  | step (.clone _) => handles + 1
  | _ => handles

/-- How many jobs are left behind the event. -/
def jobsAfter (jobs : Nat) : Event ω → Nat
  | step (.spawn _) => jobs + 1
  | step (.run _) => jobs - 1
  | _ => jobs

/-- The world behind the event, unless the computation runs. -/
def world (w : ω) : Event ω → ω
  | step _ => w
  | change f => f w

/-- What the event is told, by the result if it is there. -/
def answer (held : Option (Except Raised α)) : Event ω → Option (Answer α)
  | step (.clone _) => some .cloned
  | step (.force _) => held.map fun result => .result (result.mapError Raised.clone)
  | step (.spawn _) => some .spawned
  | step (.run _) => some .ran
  | step (.isDone _) => some (.isDone held.isSome)
  | change _ => none

end Event

/-- All events name handles and jobs that are there. -/
def legal : Nat → Nat → List (Event ω) → Bool
  | _, _, [] => true
  | handles, jobs, e :: rest =>
    e.possible handles jobs && legal (e.handlesAfter handles) (e.jobsAfter jobs) rest

/-- The world behind events, unless the computation runs. -/
def changed (events : List (Event ω)) (w : ω) : ω := events.foldl Event.world w

/-- Lets an event happen. -/
def happen (x : Shared (StateM ω) α) :
    Event ω → OptionT (StateM ω) (Option (Answer α) × Shared (StateM ω) α)
  | .step s => do
    let (answer, x) ← x.step s
    return (some answer, x)
  | .change f => do
    modify f
    return (none, x)

/-- Lets events happen one after the other, and lists what they are told. -/
def history : List (Event ω) → Shared (StateM ω) α →
    OptionT (StateM ω) (List (Answer α) × Shared (StateM ω) α)
  | [], x => return ([], x)
  | e :: rest, x => do
    let (answer, x) ← x.happen e
    let (answers, x) ← history rest x
    return (answer.toList ++ answers, x)

/-! ## One event -/

/-- A computation with so many handles and jobs. -/
def among (d : Deferred (StateM ω) α Raised) (handles jobs : Nat) : Shared (StateM ω) α :=
  ⟨[d], .replicate handles 0, .replicate jobs 0⟩

/-- What holds the result, if it is there. -/
def holder (compute : StateM ω (Except Raised α)) :
    Option (Except Raised α) → Deferred (StateM ω) α Raised
  | none => .pending compute
  | some result => .done result

section

variable {e : Event ω} {n k : Nat} {compute : StateM ω (Except Raised α)}
  {held : Option (Except Raised α)} {d : Deferred (StateM ω) α Raised}

theorem happen_clone {i : Nat} (h : i < n) (w : ω) :
    ((among d n k).happen (.step (.clone i))).run.run w =
      (some (some .cloned, among d (n + 1) k), w) := by
  have hplace : (among d n k).handles[i]? = some 0 := List.getElem?_replicate_of_lt h
  have hafter : among d (n + 1) k = ⟨[d], .replicate n 0 ++ [0], .replicate k 0⟩ := by
    rw [among, List.replicate_succ']
  unfold happen step
  simp only [hplace, hafter]
  rfl

theorem happen_spawn {i : Nat} (h : i < n) (w : ω) :
    ((among d n k).happen (.step (.spawn i))).run.run w =
      (some (some .spawned, among d n (k + 1)), w) := by
  have hplace : (among d n k).handles[i]? = some 0 := List.getElem?_replicate_of_lt h
  have hafter : among d n (k + 1) = ⟨[d], .replicate n 0, .replicate k 0 ++ [0]⟩ := by
    rw [among, List.replicate_succ']
  unfold happen step
  simp only [hplace, hafter]
  rfl

theorem happen_isDone {i : Nat} (h : i < n) (w : ω) :
    ((among d n k).happen (.step (.isDone i))).run.run w =
      (some (some (.isDone d.isDone), among d n k), w) := by
  have hplace : (among d n k).handles[i]? = some 0 := List.getElem?_replicate_of_lt h
  unfold happen step
  simp only [hplace]
  rfl

theorem happen_force {i : Nat} (h : i < n) (w : ω) :
    ((among d n k).happen (.step (.force i))).run.run w =
      (some (some (.result ((d.force.run w).1.1.mapError Raised.clone)),
        among (d.force.run w).1.2 n k), (d.force.run w).2) := by
  have hplace : (among d n k).handles[i]? = some 0 := List.getElem?_replicate_of_lt h
  unfold happen step
  simp only [hplace]
  rfl

theorem happen_run {j : Nat} (h : j < k) (w : ω) :
    ((among d n k).happen (.step (.run j))).run.run w =
      (some (some .ran, among (d.force.run w).1.2 n (k - 1)), (d.force.run w).2) := by
  have hplace : (among d n k).jobs[j]? = some 0 := List.getElem?_replicate_of_lt h
  have hafter : ∀ d : Deferred (StateM ω) α Raised, among d n (k - 1) =
      ⟨[d], .replicate n 0, (List.replicate k 0).eraseIdx j⟩ := by
    intro d
    rw [among, List.eraseIdx_replicate, if_pos h]
  unfold happen step
  simp only [hplace, hafter]
  rfl

end

section

variable {e : Event ω} {n k : Nat} {compute : StateM ω (Except Raised α)}

/-- Nobody asks, and the computation does not run. -/
theorem happen_waiting (held : Option (Except Raised α)) (hpossible : e.possible n k = true)
    (hasks : e.asks = false) (w : ω) :
    ((among (holder compute held) n k).happen e).run.run w =
      (some (e.answer held, among (holder compute held) (e.handlesAfter n) (e.jobsAfter k)),
        e.world w) := by
  cases e with
  | change f => rfl
  | step s =>
    cases s with
    | clone i => exact happen_clone (of_decide_eq_true hpossible) w
    | force i => contradiction
    | spawn i => exact happen_spawn (of_decide_eq_true hpossible) w
    | run j => contradiction
    | isDone i =>
      rw [happen_isDone (of_decide_eq_true hpossible) w]
      cases held <;> rfl

/-- The first to ask runs the computation. -/
theorem happen_first (hpossible : e.possible n k = true) (hasks : e.asks = true) (w : ω) :
    ((among (holder compute none) n k).happen e).run.run w =
      (some (e.answer (some (compute.run w).1),
        among (holder compute (some (compute.run w).1)) (e.handlesAfter n) (e.jobsAfter k)),
        (compute.run w).2) := by
  cases e with
  | change f => contradiction
  | step s =>
    cases s with
    | force i => exact happen_force (of_decide_eq_true hpossible) w
    | run j => exact happen_run (of_decide_eq_true hpossible) w
    | _ => contradiction

/-- Once the result is there, whoever asks is told it. -/
theorem happen_held (result : Except Raised α) (hpossible : e.possible n k = true) (w : ω) :
    ((among (holder compute (some result)) n k).happen e).run.run w =
      (some (e.answer (some result),
        among (holder compute (some result)) (e.handlesAfter n) (e.jobsAfter k)), e.world w) := by
  by_cases hasks : e.asks = true
  · cases e with
    | change f => contradiction
    | step s =>
      cases s with
      | force i => exact happen_force (of_decide_eq_true hpossible) w
      | run j => exact happen_run (of_decide_eq_true hpossible) w
      | _ => contradiction
  · exact happen_waiting (some result) hpossible (eq_false_of_ne_true hasks) w

end

/-! ## Histories -/

theorem history_cons {e : Event ω} {rest : List (Event ω)} {x y z : Shared (StateM ω) α}
    {answer : Option (Answer α)} {answers : List (Answer α)} {w w' w'' : ω}
    (hfirst : (x.happen e).run.run w = (some (answer, y), w'))
    (hrest : (history rest y).run.run w' = (some (answers, z), w'')) :
    (history (e :: rest) x).run.run w = (some (answer.toList ++ answers, z), w'') := by
  unfold history
  simp only [OptionT.run_bind, Option.elimM, StateT.run_bind, hfirst]
  show ((history rest y).run >>= _).run w' = _
  simp only [StateT.run_bind, hrest]
  rfl

theorem legal_cons {e : Event ω} {rest : List (Event ω)} {n k : Nat} :
    legal n k (e :: rest) = true ↔
      e.possible n k = true ∧ legal (e.handlesAfter n) (e.jobsAfter k) rest = true := by
  rw [legal, Bool.and_eq_true]

theorem filterMap_cons_toList {β γ : Type} (f : β → Option γ) (x : β) (xs : List β) :
    (x :: xs).filterMap f = (f x).toList ++ xs.filterMap f := by
  rw [List.filterMap_cons]
  cases f x <;> rfl

section

variable {events : List (Event ω)} {n k : Nat} {compute : StateM ω (Except Raised α)}

/-- Nobody asks, and the computation never runs. -/
theorem history_waiting (hlegal : legal n k events = true) (hasks : ∀ e ∈ events, e.asks = false)
    (w : ω) : ∃ x, (history events (among (holder compute none) n k)).run.run w =
      (some (events.filterMap (Event.answer none), x), changed events w) := by
  induction events generalizing n k w with
  | nil => exact ⟨_, rfl⟩
  | cons e rest ih =>
    obtain ⟨hpossible, hlegal⟩ := legal_cons.1 hlegal
    obtain ⟨he, hasks⟩ := List.forall_mem_cons.1 hasks
    obtain ⟨x, hrest⟩ := ih hlegal hasks (e.world w)
    refine ⟨x, ?_⟩
    rw [history_cons (happen_waiting none hpossible he w) hrest, filterMap_cons_toList]
    rfl

/-- The result is there, and the computation does not run again. -/
theorem history_held (result : Except Raised α) (hlegal : legal n k events = true) (w : ω) :
    ∃ x, (history events (among (holder compute (some result)) n k)).run.run w =
      (some (events.filterMap (Event.answer (some result)), x), changed events w) := by
  induction events generalizing n k w with
  | nil => exact ⟨_, rfl⟩
  | cons e rest ih =>
    obtain ⟨hpossible, hlegal⟩ := legal_cons.1 hlegal
    obtain ⟨x, hrest⟩ := ih hlegal (e.world w)
    refine ⟨x, ?_⟩
    rw [history_cons (happen_held result hpossible w) hrest, filterMap_cons_toList]
    rfl

/-- The computation runs when the first one asks, in the world of that moment, and never again. -/
theorem history_split {before after : List (Event ω)} {first : Event ω}
    (hlegal : legal n k (before ++ first :: after) = true)
    (hbefore : ∀ e ∈ before, e.asks = false) (hfirst : first.asks = true) (w : ω) :
    let ran := compute.run (changed before w)
    ∃ x, (history (before ++ first :: after) (among (holder compute none) n k)).run.run w =
      (some (before.filterMap (Event.answer none) ++
        (first :: after).filterMap (Event.answer (some ran.1)), x), changed after ran.2) := by
  -- The events before the first one only move the world and the number of handles and jobs.
  induction before generalizing n k w with
  | nil =>
    obtain ⟨hpossible, hlegal⟩ := legal_cons.1 hlegal
    obtain ⟨x, hrest⟩ := history_held (compute.run w).1 hlegal (compute.run w).2
    refine ⟨x, ?_⟩
    rw [List.nil_append, history_cons (happen_first hpossible hfirst w) hrest,
      filterMap_cons_toList]
    rfl
  | cons e rest ih =>
    obtain ⟨hpossible, hlegal⟩ := legal_cons.1 hlegal
    obtain ⟨he, hbefore⟩ := List.forall_mem_cons.1 hbefore
    obtain ⟨x, hrest⟩ := ih hlegal hbefore (e.world w)
    refine ⟨x, ?_⟩
    rw [List.cons_append, history_cons (happen_waiting none hpossible he w) hrest,
      filterMap_cons_toList (Event.answer none), List.append_assoc]
    rfl

end

end Shared

end Stencil
