import Mathlib.Data.List.Induction
import Stencil.Proofs.Execution.Journal

/-!
# What an execution asks for, and sinks that fail

An execution prepares its sink, calls members and writes, one after the other. `Document.events`
lists all of this in order. It is what can be noted down beside the data and beside the sink, and
says more: which calls come before which writes.

With two sinks the executions of a template differ only where one of them fails. Up to there they
ask for the same, and the one whose sink fails asks for nothing behind it.

Results:
* `runFrom_visit`: what a visit does, by what it asks for.
* `execute_watched`: the events are what is noted down beside the data and the sink.
* `visits_cut`: one execution asks for what the other does, up to where its sink fails.
* `execute_cut`: the run on a sink that fails behind so many writes.
-/

namespace Stencil

variable {σ τ τ' : Type}

/-- Something that an execution asks for. -/
inductive Event where
  | prepare
  | write (w : Written)
  /-- The member that a term names is called. -/
  | call (term : Node) (arg : Option Value) (outcome : Outcome)

/-! ## Sinks -/

namespace Sink

/-- Hands something to a sink. -/
def put (sink : Sink τ) : Written → τ → Option Error × τ
  | .text piece => sink.write piece
  | .value v => sink.writeValue v

/-- The sink behind requests. -/
def after (sink : Sink τ) (ws : List Written) (t : τ) : τ :=
  ws.foldl (fun t w => (sink.put w t).2) t

/-- The sink takes these, one after the other. -/
def Takes (sink : Sink τ) : List Written → τ → Prop
  | [], _ => True
  | w :: ws, t => (sink.put w t).1 = none ∧ sink.Takes ws (sink.put w t).2

/-- The sink never fails. -/
structure Tireless (sink : Sink τ) : Prop where
  prepare : ∀ t, (sink.prepare t).1 = none
  put : ∀ w t, (sink.put w t).1 = none

/-- Of these requests, made one after the other, the sink fails at the write that has `n` others
before it, and at nothing before that. `counts` says which requests are writes: for null, a sink
without a way of its own with values is not even written to. -/
def FailsBehind (sink : Sink τ) (counts : Written → Bool) (n : Nat) (ws : List Written) (t : τ) :
    Prop :=
  ∀ init w, init ++ [w] <+: ws → (init.filter counts).length ≤ n →
    ((sink.put w (sink.after init t)).1 ≠ none ↔
      counts w = true ∧ (init.filter counts).length = n)

theorem after_concat (sink : Sink τ) (ws : List Written) (w : Written) (t : τ) :
    sink.after (ws ++ [w]) t = (sink.put w (sink.after ws t)).2 := by
  simp [after]

theorem takes_concat (sink : Sink τ) (ws : List Written) (w : Written) (t : τ) :
    sink.Takes (ws ++ [w]) t ↔ sink.Takes ws t ∧ (sink.put w (sink.after ws t)).1 = none := by
  induction ws generalizing t with
  | nil => simp [Takes, after]
  | cons v ws ih =>
    rw [List.cons_append, Takes, Takes, ih, and_assoc]
    rfl

/-- A sink that takes everything has not been written to more often than it takes. -/
theorem length_le_of_takes {sink : Sink τ} {counts : Written → Bool} {n : Nat} {ws : List Written}
    {t : τ} (hfails : sink.FailsBehind counts n ws t) (h : sink.Takes ws t) :
    (ws.filter counts).length ≤ n := by
  induction ws using List.reverseRecOn with
  | nil => simp
  | append_singleton init w ih =>
    obtain ⟨hinit, hw⟩ := (takes_concat sink init w t).1 h
    have hle := ih (fun init' w' h => hfails init' w' (h.trans (List.prefix_append _ _))) hinit
    have hiff := hfails init w (List.prefix_refl _) hle
    rw [List.filter_append, List.length_append]
    by_cases hc : counts w = true
    · have hne : (init.filter counts).length ≠ n := fun hn => hiff.2 ⟨hc, hn⟩ hw
      simp only [List.filter_cons, hc, if_true, List.filter_nil, List.length_singleton]
      omega
    · simpa [hc] using hle

end Sink

/-! ## Events -/

namespace Event

/-- What is handed to the sink. -/
def written? : Event → Option Written
  | write w => some w
  | _ => none

end Event

/-- All that is handed to the sink, in order. -/
def written (events : List Event) : List Written := events.filterMap Event.written?

@[simp] theorem written_append (es fs : List Event) :
    written (es ++ fs) = written es ++ written fs := List.filterMap_append ..

@[simp] theorem written_write (w : Written) (es : List Event) :
    written (.write w :: es) = w :: written es := rfl

namespace Execution

/-- What a visit asks for, with this in the register and the data in this state. -/
def asks (data : Members σ) (moment : Moment) (n : Node) (register : Option Value) (state : σ) :
    Option Event :=
  match moment, n.kind with
  | .enter, .field | .enter, .identifier =>
    some (.call n register (invoke data n register state).1)
  | .leave, .text => some (.write (.text n.value))
  | .leave, .action => register.map fun v => .write (.value v)
  | _, _ => none

/-- A call that is asked for is that of the term. -/
theorem asks_call {data : Members σ} {moment : Moment} {n term : Node} {r arg : Option Value}
    {s : σ} {outcome : Outcome} (h : asks data moment n r s = some (.call term arg outcome)) :
    Event.call term arg outcome = .call n r (invoke data n r s).1 := by
  unfold asks at h
  split at h
  · exact (Option.some.inj h).symm
  · exact (Option.some.inj h).symm
  · cases h
  · cases r <;> cases h
  · cases h

theorem asks_ne_prepare {data : Members σ} {moment : Moment} {n : Node} {r : Option Value}
    {s : σ} : asks data moment n r s ≠ some .prepare := by
  unfold asks
  split
  · simp
  · simp
  · simp
  · cases r <;> simp
  · simp

/-- What visits ask for, up to the first that fails. -/
def eventsFrom (data : Members σ) (sink : Sink τ) : List (Moment × Node) → Frame σ τ → List Event
  | [], _ => []
  | (moment, n) :: visits, f =>
    (asks data moment n f.register f.data).toList ++
      match runFrom (visit data sink moment n) f with
      | (.ok _, g) => eventsFrom data sink visits g
      | (.error _, _) => []

end Execution

open Execution

/-- What the execution of a document asks for, in order. -/
def Document.events (d : Document) (sink : Sink τ) (data : Members σ) (state : σ) (target : τ) :
    List Event :=
  .prepare ::
    match sink.prepare target with
    | (none, t) => eventsFrom data sink d.root.tour ⟨none, state, t⟩
    | (some _, _) => []

/-! ## Visits -/

namespace Execution

/-- The register behind a visit that calls nothing. -/
def kept (n : Node) (register : Option Value) : Option Value :=
  if n.kind = .action then none else register

/-- How a visit ends that calls something. -/
def ended (n : Node) (outcome : Outcome) : Except Error Unit × Option Value :=
  match outcome.toExcept with
  | .ok v => (.ok (), some v)
  | .error e => (.error (e.within (termFailure n)), none)

/-- **Visits.** A visit that calls a member leaves the sink alone, and ends as the call does. One
that writes leaves the data alone, and ends as the sink answers. Any other only sees to the
register. -/
theorem runFrom_visit (data : Members σ) (sink : Sink τ) (moment : Moment) (n : Node)
    (f : Frame σ τ) :
    runFrom (visit data sink moment n) f =
      match asks data moment n f.register f.data with
      | some (.call _ _ outcome) => ((ended n outcome).1,
          ⟨(ended n outcome).2, (invoke data n f.register f.data).2, f.sink⟩)
      | some (.write w) => (answer (sink.put w f.sink).1,
          ⟨kept n f.register, f.data, (sink.put w f.sink).2⟩)
      | _ => (.ok (), ⟨kept n f.register, f.data, f.sink⟩) := by
  have hcall : ∀ n : Node, runFrom (evaluate data n) f =
      ((ended n (invoke data n f.register f.data).1).1,
        ⟨(ended n (invoke data n f.register f.data).1).2, (invoke data n f.register f.data).2,
          f.sink⟩) := by
    intro n
    rw [runFrom_evaluate, ended]
    cases (invoke data n f.register f.data).1.toExcept <;> rfl
  obtain ⟨kind, value, children⟩ := n
  cases moment with
  | enter =>
    cases kind with
    | field => exact hcall ⟨.field, value, children⟩
    | identifier => exact hcall ⟨.identifier, value, children⟩
    | _ => rfl
  | leave =>
    cases kind with
    | text => exact runFrom_output _ f
    | action =>
      rw [visit_leave_action, runFrom_writeRegister]
      obtain ⟨_ | v, state, t⟩ := f <;> rfl
    | _ => rfl

theorem eventsFrom_cons (data : Members σ) (sink : Sink τ) (moment : Moment) (n : Node)
    (visits : List (Moment × Node)) (f : Frame σ τ) :
    eventsFrom data sink ((moment, n) :: visits) f =
      (asks data moment n f.register f.data).toList ++
        match runFrom (visit data sink moment n) f with
        | (.ok _, g) => eventsFrom data sink visits g
        | (.error _, _) => [] := rfl

/-- The visits of a walk, one after the other. -/
abbrev visits (data : Members σ) (sink : Sink τ) (vs : List (Moment × Node)) :
    Execution σ τ Unit :=
  vs.forM fun (moment, n) => visit data sink moment n

theorem runFrom_visits_nil (data : Members σ) (sink : Sink τ) (f : Frame σ τ) :
    runFrom (visits data sink []) f = (.ok (), f) := rfl

theorem runFrom_visits_cons (data : Members σ) (sink : Sink τ) (moment : Moment) (n : Node)
    (vs : List (Moment × Node)) (f : Frame σ τ) :
    runFrom (visits data sink ((moment, n) :: vs)) f =
      match runFrom (visit data sink moment n) f with
      | (.ok _, g) => runFrom (visits data sink vs) g
      | (.error e, g) => (.error e, g) := by
  have hforM : visits data sink ((moment, n) :: vs) =
      (visit data sink moment n >>= fun _ => visits data sink vs) := rfl
  rw [hforM, runFrom_bind]
  generalize runFrom (visit data sink moment n) f = end'
  obtain ⟨_ | _, g⟩ := end' <;> rfl

/-! ## Two sinks -/

/-- What becomes of the requests `events` on a sink in the state `t`, and how the execution ends
that ends with `full` if the sink takes them all. The execution asks for `asked`, and ends with
`run`. -/
inductive Cut (sink : Sink τ') (t : τ') (events : List Event) (full : Except Error Unit × σ) :
    List Event → Except Error Unit × Frame σ τ' → Prop where
  /-- The sink takes everything. -/
  | whole {r : Option Value} : sink.Takes (written events) t →
    Cut sink t events full events (full.1, ⟨r, full.2, sink.after (written events) t⟩)
  /-- The sink fails: this is the end. -/
  | short {init rest : List Event} {w : Written} {e : Error} {r : Option Value} {s : σ} :
    events = init ++ .write w :: rest → sink.Takes (written init) t →
    (sink.put w (sink.after (written init) t)).1 = some e →
    Cut sink t events full (init ++ [.write w])
      (.error e, ⟨r, s, sink.after (written init ++ [w]) t⟩)

theorem Cut.cons {sink : Sink τ'} {t : τ'} {events asked : List Event}
    {full : Except Error Unit × σ} {run : Except Error Unit × Frame σ τ'} {event : Event}
    (hevent : event.written? = none) (h : Cut sink t events full asked run) :
    Cut sink t (event :: events) full (event :: asked) run := by
  have hwritten : ∀ es, written (event :: es) = written es :=
    fun es => List.filterMap_cons_none hevent
  cases h with
  | whole htakes =>
    rw [← hwritten] at htakes ⊢
    exact .whole htakes
  | @short init rest w e r s hevents htakes hput =>
    rw [← hwritten] at htakes hput ⊢
    have hevents' : event :: events = (event :: init) ++ .write w :: rest := by
      rw [hevents, List.cons_append]
    exact Cut.short hevents' htakes hput

theorem Cut.write {sink : Sink τ'} {t : τ'} {events asked : List Event}
    {full : Except Error Unit × σ} {run : Except Error Unit × Frame σ τ'} {w : Written}
    (hput : (sink.put w t).1 = none) (h : Cut sink (sink.put w t).2 events full asked run) :
    Cut sink t (.write w :: events) full (.write w :: asked) run := by
  cases h with
  | whole htakes =>
    have htakes' : sink.Takes (written (.write w :: events)) t := ⟨hput, htakes⟩
    exact .whole htakes'
  | @short init rest v e r s hevents htakes hput' =>
    have hevents' : .write w :: events = (.write w :: init) ++ .write v :: rest := by
      rw [hevents, List.cons_append]
    have htakes' : sink.Takes (written (.write w :: init)) t := ⟨hput, htakes⟩
    exact Cut.short hevents' htakes' hput'

/-- Where an execution is cut is told by which of its writes fails. -/
theorem Cut.behind {sink : Sink τ'} {t : τ'} {events asked : List Event}
    {full : Except Error Unit × σ} {run : Except Error Unit × Frame σ τ'}
    (h : Cut sink t events full asked run) {counts : Written → Bool} {n : Nat}
    (hfails : sink.FailsBehind counts n (written events) t) :
    (((written events).filter counts).length ≤ n → asked = events ∧ run.1 = full.1 ∧
      run.2.data = full.2 ∧ run.2.sink = sink.after (written events) t) ∧
    (n < ((written events).filter counts).length →
      ∃ before w rest e, events = before ++ .write w :: rest ∧
        ((written before).filter counts).length = n ∧ counts w = true ∧
        asked = before ++ [.write w] ∧ sink.Takes (written before) t ∧
        (sink.put w (sink.after (written before) t)).1 = some e ∧ run.1 = .error e ∧
        run.2.sink = sink.after (written before ++ [w]) t) := by
  cases h with
  | whole htakes =>
    have hle := Sink.length_le_of_takes hfails htakes
    exact ⟨fun _ => ⟨rfl, rfl, rfl, rfl⟩, fun hlt => absurd hlt (by omega)⟩
  | @short init rest w e r s hevents htakes hput =>
    subst hevents
    rw [written_append, written_write] at hfails ⊢
    have hpre : written init ++ [w] <+: written init ++ w :: written rest :=
      ⟨written rest, by simp⟩
    have hle : ((written init).filter counts).length ≤ n :=
      Sink.length_le_of_takes (fun init' w' h => hfails init' w'
        (h.trans (List.prefix_append _ _))) htakes
    -- Nothing fails before the write that is counted as the last one.
    obtain ⟨hcounts, hlength⟩ := (hfails _ w hpre hle).1 (by simp [hput])
    refine ⟨fun hle' => ?_, fun _ => ?_⟩
    · simp [List.filter_append, hcounts] at hle'
      omega
    · exact ⟨init, w, rest, e, rfl, hlength, hcounts, rfl, htakes, hput, rfl, rfl⟩

/-- **Two executions.** The one on the sink that never fails tells what the other one asks for. -/
theorem visits_cut (data : Members σ) {sink : Sink τ} (sink' : Sink τ') (hsink : sink.Tireless) :
    ∀ (vs : List (Moment × Node)) (r : Option Value) (s : σ) (t : τ) (t' : τ'),
      let full := runFrom (visits data sink vs) ⟨r, s, t⟩
      Cut sink' t' (eventsFrom data sink vs ⟨r, s, t⟩) (full.1, full.2.data)
        (eventsFrom data sink' vs ⟨r, s, t'⟩) (runFrom (visits data sink' vs) ⟨r, s, t'⟩)
  | [], r, s, t, t' => by
    have htakes : sink'.Takes (written []) t' := trivial
    exact .whole htakes
  | (moment, n) :: vs, r, s, t, t' => by
    have ih := visits_cut data sink' hsink vs
    simp only [eventsFrom_cons, runFrom_visits_cons, runFrom_visit]
    cases asks data moment n r s with
    | none => exact ih _ _ _ _
    | some event =>
      cases event with
      | prepare => exact .cons rfl (ih _ _ _ _)
      | call term arg outcome =>
        dsimp only
        cases (ended n outcome).1 with
        | ok _ => exact .cons rfl (ih _ _ _ _)
        | error e =>
          have htakes : sink'.Takes (written []) t' := trivial
          exact .cons rfl (.whole htakes)
      | write w =>
        dsimp only
        rw [hsink.put]
        cases hput : (sink'.put w t').1 with
        | none => exact .write hput (ih _ _ _ _)
        | some e =>
          have htakes : sink'.Takes (written []) t' := trivial
          exact .short rfl htakes hput

end Execution

/-! ## Notes -/

/-- A call of a member of the data: its name, its argument, and what came of it. -/
abbrev Call := String × Option Value × Outcome

/-- A sink that notes down what it is asked for. -/
def Sink.noted (sink : Sink τ) : Sink (τ × List Event) where
  prepare t := ((sink.prepare t.1).1, (sink.prepare t.1).2, t.2 ++ [.prepare])
  write piece t :=
    ((sink.write piece t.1).1, (sink.write piece t.1).2, t.2 ++ [.write (.text piece)])
  writeValue v t :=
    ((sink.writeValue v t.1).1, (sink.writeValue v t.1).2, t.2 ++ [.write (.value v)])

/-- Data that notes down the calls it gets. -/
def Members.noted (data : Members σ) : Members (σ × List Call) where
  has := data.has
  invoke name arg s :=
    ((data.invoke name arg s.1).1, (data.invoke name arg s.1).2,
      s.2 ++ [(name, arg, (data.invoke name arg s.1).1)])

namespace Event

/-- The sink is asked. -/
def ofSink : Event → Bool
  | call .. => false
  | _ => true

/-- The call that the data gets. Of the helper it gets none. -/
def call? : Event → Option Call
  | call n arg outcome =>
    if n.kind = .field then some (fieldName n.value, arg, outcome)
    else if n.value = htmlHelper then none
    else some (n.value, arg, outcome)
  | _ => none

end Event

/-- The calls that the data gets, in order. -/
def memberCalls (events : List Event) : List Call := events.filterMap Event.call?

/-- What the sink is asked for, in order. -/
def requests (events : List Event) : List Event := events.filter Event.ofSink

@[simp] theorem memberCalls_nil : memberCalls [] = [] := rfl

@[simp] theorem memberCalls_cons (event : Event) (es : List Event) :
    memberCalls (event :: es) = event.call?.toList ++ memberCalls es := by
  cases h : event.call? <;> simp [memberCalls, h]

@[simp] theorem requests_nil : requests [] = [] := rfl

@[simp] theorem requests_cons (event : Event) (es : List Event) :
    requests (event :: es) = if event.ofSink then event :: requests es else requests es :=
  List.filter_cons

namespace Execution

theorem noted_put (sink : Sink τ) (w : Written) (t : τ) (es : List Event) :
    sink.noted.put w (t, es) = ((sink.put w t).1, (sink.put w t).2, es ++ [.write w]) := by
  cases w <;> rfl

theorem invoke_noted (data : Members σ) (n : Node) (arg : Option Value) (s : σ)
    (calls : List Call) :
    invoke data.noted n arg (s, calls) =
      ((invoke data n arg s).1, (invoke data n arg s).2,
        calls ++ (Event.call n arg (invoke data n arg s).1).call?.toList) := by
  obtain ⟨kind, value, children⟩ := n
  by_cases hk : kind = .field
  · subst hk
    rfl
  · have hinvoke : ∀ {ω : Type} (data : Members ω),
        invoke data ⟨kind, value, children⟩ = data.withHelpers.invoke value := by
      intro ω data
      cases kind <;> first | rfl | exact absurd rfl hk
    simp only [hinvoke, Event.call?, hk, if_false]
    by_cases hv : value = htmlHelper
    · subst hv
      simp only [invoke_html, if_true, Option.toList_none, List.append_nil]
      cases arg <;> rfl
    · simp only [invoke_of_ne _ hv, hv, if_false]
      rfl

theorem asks_noted (data : Members σ) (moment : Moment) (n : Node) (r : Option Value) (s : σ)
    (calls : List Call) : asks data.noted moment n r (s, calls) = asks data moment n r s := by
  simp only [asks, invoke_noted]

/-- Visits are noted down as the events that they are. -/
theorem visits_noted (data : Members σ) (sink : Sink τ) :
    ∀ (vs : List (Moment × Node)) (r : Option Value) (s : σ) (t : τ) (calls : List Call)
      (es : List Event),
      let run := runFrom (visits data sink vs) ⟨r, s, t⟩
      let events := eventsFrom data sink vs ⟨r, s, t⟩
      runFrom (visits data.noted sink.noted vs) ⟨r, (s, calls), (t, es)⟩ =
        (run.1, ⟨run.2.register, (run.2.data, calls ++ memberCalls events),
          (run.2.sink, es ++ requests events)⟩)
  | [], r, s, t, calls, es => by simp [eventsFrom, runFrom_visits_nil]
  | (moment, n) :: vs, r, s, t, calls, es => by
    have ih := visits_noted data sink vs
    simp only [eventsFrom_cons, runFrom_visits_cons, runFrom_visit, asks_noted, invoke_noted,
      noted_put]
    cases hasks : asks data moment n r s with
    | none => exact ih _ _ _ _ _
    | some event =>
      cases event with
      | prepare => exact absurd hasks asks_ne_prepare
      | call term arg outcome =>
        rw [asks_call hasks]
        dsimp only
        cases (ended n (invoke data n r s).1).1 with
        | ok _ => simp [ih, Event.ofSink]
        | error e => simp [Event.ofSink]
      | write w =>
        dsimp only
        cases (sink.put w t).1 with
        | none => simp [answer, ih, Event.ofSink, Event.call?]
        | some e => simp [answer, Event.ofSink, Event.call?]

end Execution

/-! ## Documents -/

/-- The error of a run that ends so. -/
def Execution.failed (name : String) : Except Error Unit → Option Error
  | .ok _ => none
  | .error e => some (e.within (Execution.failure name))

/-- What a walk comes to as a run. -/
def Run.ofEnd (name : String) (r : Except Error Unit × Frame σ τ) : Run σ τ :=
  ⟨Execution.failed name r.1, r.2.data, r.2.sink⟩

theorem execute_eq_ofEnd (d : Document) (name : String) (sink : Sink τ) (data : Members σ)
    (state : σ) (target : τ) :
    d.execute name sink data state target =
      .ofEnd name (match sink.prepare target with
        | (none, t) => runFrom (visits data sink d.root.tour) ⟨none, state, t⟩
        | (some e, t) => (.error e, ⟨none, state, t⟩)) := by
  have hwalk : runFrom (Execution.walk data sink d.root) ⟨none, state, target⟩ =
      match sink.prepare target with
      | (none, t) => runFrom (visits data sink d.root.tour) ⟨none, state, t⟩
      | (some e, t) => (.error e, ⟨none, state, t⟩) := by
    rw [Execution.walk, Node.walk_eq_tour, runFrom_bind, runFrom_output]
    rcases sink.prepare target with ⟨_ | e, t⟩ <;> rfl
  rw [← hwalk, Document.execute]
  unfold runFrom
  rcases (Execution.walk data sink d.root).run.run ⟨none, state, target⟩ with ⟨_ | _, f⟩ <;> rfl

/-- **Notes.** What is noted down beside the data and the sink of a run are its events. -/
theorem execute_watched (d : Document) (name : String) (sink : Sink τ) (data : Members σ)
    (state : σ) (target : τ) :
    let run := d.execute name sink data state target
    let events := d.events sink data state target
    d.execute name sink.noted data.noted (state, []) (target, []) =
      ⟨run.error, (run.data, memberCalls events), (run.sink, requests events)⟩ := by
  have hprepare : sink.noted.prepare (target, []) =
      ((sink.prepare target).1, (sink.prepare target).2, [.prepare]) := rfl
  simp only [execute_eq_ofEnd, Document.events, hprepare]
  rcases sink.prepare target with ⟨_ | e, t⟩
  · simp only [visits_noted]
    rcases runFrom (visits data sink d.root.tour) ⟨none, state, t⟩ with ⟨_ | _, f⟩ <;> rfl
  · rfl

theorem prepare_not_mem_eventsFrom (data : Members σ) (sink : Sink τ) :
    ∀ (vs : List (Moment × Node)) (f : Frame σ τ), Event.prepare ∉ eventsFrom data sink vs f
  | [], f => List.not_mem_nil
  | (moment, n) :: vs, f => by
    rw [eventsFrom_cons, List.mem_append, not_or]
    refine ⟨fun h => asks_ne_prepare (Option.mem_toList.1 h), ?_⟩
    rcases runFrom (visit data sink moment n) f with ⟨_ | _, g⟩
    · exact List.not_mem_nil
    · exact prepare_not_mem_eventsFrom data sink vs g

/-- The run on a sink that is prepared is the other one, cut. -/
theorem events_cut (d : Document) (name : String) (data : Members σ) (state : σ) {sink : Sink τ}
    (hsink : sink.Tireless) (target : τ) {sink' : Sink τ'} {target' : τ'}
    (hprepare : (sink'.prepare target').1 = none) :
    ∃ full run, d.execute name sink data state target = .ofEnd name full ∧
      d.execute name sink' data state target' = .ofEnd name run ∧
      Cut sink' (sink'.prepare target').2 (d.events sink data state target)
        (full.1, full.2.data) (d.events sink' data state target') run := by
  refine ⟨_, _, execute_eq_ofEnd d name sink data state target,
    execute_eq_ofEnd d name sink' data state target', ?_⟩
  have htireless := hsink.prepare target
  unfold Document.events
  generalize sink.prepare target = p at htireless
  generalize sink'.prepare target' = p' at hprepare
  obtain ⟨_, t⟩ := p
  obtain ⟨_, t'⟩ := p'
  cases htireless
  cases hprepare
  exact .cons rfl (visits_cut data sink' hsink d.root.tour none state t t')

theorem kind_within_failure (e : Error) (name : String) :
    (e.within (Execution.failure name)).kind = e.kind := rfl

/-- **Sinks that fail.** Let a template ask for `events` on a sink that never fails. It prepares the
sink first, and once. On a sink that fails at the write behind `n` others, it asks for the same up
to that write and for nothing more, and ends with the error of the sink; if it does not write that
often, it asks for the same and ends the same. On a sink that cannot be prepared it asks for nothing
more. In each run these are what is noted down beside the data and the sink. -/
theorem execute_cut (d : Document) (name : String) (data : Members σ) (state : σ) {sink : Sink τ}
    (hsink : sink.Tireless) (target : τ) :
    let full := d.execute name sink data state target
    let events := d.events sink data state target
    (∃ rest, events = .prepare :: rest ∧ .prepare ∉ rest) ∧
      ∀ {τ' : Type} (sink' : Sink τ') (target' : τ'),
        let run := d.execute name sink' data state target'
        let asked := d.events sink' data state target'
        let prepared := (sink'.prepare target').2
        d.execute name sink'.noted data.noted (state, []) (target', []) =
            ⟨run.error, (run.data, memberCalls asked), (run.sink, requests asked)⟩ ∧
          (∀ e, (sink'.prepare target').1 = some e → asked = [.prepare] ∧
            run = ⟨some (e.within (Execution.failure name)), state, prepared⟩) ∧
          ((sink'.prepare target').1 = none → ∀ (counts : Written → Bool) (n : Nat),
            sink'.FailsBehind counts n (written events) prepared →
            (((written events).filter counts).length ≤ n →
              asked = events ∧ run.error = full.error ∧ run.data = full.data ∧
                run.sink = sink'.after (written events) prepared) ∧
            (n < ((written events).filter counts).length →
              ∃ before w rest e, events = before ++ .write w :: rest ∧
                ((written before).filter counts).length = n ∧ counts w = true ∧
                asked = before ++ [.write w] ∧ sink'.Takes (written before) prepared ∧
                (sink'.put w (sink'.after (written before) prepared)).1 = some e ∧
                run.error = some (e.within (Execution.failure name)) ∧
                (e.within (Execution.failure name)).kind = e.kind ∧
                run.sink = sink'.after (written before ++ [w]) prepared)) := by
  refine ⟨⟨_, rfl, ?_⟩, fun {τ'} sink' target' => ⟨execute_watched d name sink' data state target',
    fun e he => ?_, fun hprepare counts n hfails => ?_⟩⟩
  · rcases sink.prepare target with ⟨_ | _, t⟩
    · exact prepare_not_mem_eventsFrom data sink _ _
    · exact List.not_mem_nil
  · simp only [execute_eq_ofEnd, Document.events]
    generalize sink'.prepare target' = p at he
    obtain ⟨_, t⟩ := p
    cases he
    exact ⟨rfl, rfl⟩
  · obtain ⟨full, run, hfull, hrun, hcut⟩ :=
      events_cut d name data state hsink target hprepare
    obtain ⟨hwhole, hshort⟩ := hcut.behind hfails
    rw [hfull, hrun]
    refine ⟨fun hle => ?_, fun hlt => ?_⟩
    · obtain ⟨hasked, hend, hdata, hsink'⟩ := hwhole hle
      exact ⟨hasked, congrArg (Execution.failed name) hend, hdata, hsink'⟩
    · obtain ⟨before, w, rest, e, hevents, hlength, hcounts, hasked, htakes, hput, hend, hsink'⟩ :=
        hshort hlt
      exact ⟨before, w, rest, e, hevents, hlength, hcounts, hasked, htakes, hput,
        congrArg (Execution.failed name) hend, kind_within_failure e name, hsink'⟩

/-! ## A sink with little room -/

/-- Something is written if a sink writes the string forms of values: for null there is nothing. -/
def Written.isPiece : Written → Bool
  | .value .null => false
  | _ => true

/-- A sink with room for so many pieces. -/
def Sink.limited (room : Nat) : Sink (List String) where
  prepare _ := (none, [])
  write piece ts :=
    if ts.length < room then (none, ts ++ [piece])
    else (some (.make .io "sink is full" [("refused", piece)]), ts)

theorem limited_put (room : Nat) (w : Written) (ts : List String) :
    (Sink.limited room).put w ts =
      if w.isPiece then (Sink.limited room).write w.output ts else (none, ts) := by
  cases w with
  | text piece => rfl
  | value v => cases v <;> rfl

/-- As many pieces are there as have been written and there is room for. -/
theorem length_limited_after (room : Nat) (ws : List Written) :
    ((Sink.limited room).after ws []).length = min room (ws.filter Written.isPiece).length := by
  induction ws using List.reverseRecOn with
  | nil => simp [Sink.after]
  | append_singleton init w ih =>
    rw [Sink.after_concat, limited_put, List.filter_append, List.length_append]
    by_cases hw : w.isPiece = true
    · simp only [hw, if_true, Sink.limited, List.filter_cons_of_pos, List.filter_nil,
        List.length_singleton]
      split <;> simp_all [Sink.limited] <;> omega
    · simpa [hw] using ih

theorem limited_failsBehind (room : Nat) (ws : List Written) :
    (Sink.limited room).FailsBehind Written.isPiece room ws [] := by
  intro init w _ hle
  have hlength := length_limited_after room init
  rw [limited_put]
  by_cases hw : w.isPiece = true
  · simp only [hw, if_true, true_and, Sink.limited] at hlength ⊢
    rw [apply_ite Prod.fst]
    split <;> simp_all <;> omega
  · simp [hw]

/-- A sink of text never fails. -/
theorem tireless_text : Sink.text.Tireless where
  prepare _ := rfl
  put w t := by
    cases w with
    | text piece => rfl
    | value v => simp only [Sink.put, text_writeValue]

/-- There is no room for the value: the member has been called, and what is behind is not asked
for. -/
theorem execute_cut_value :
    let d := Document.new "t" (.root [.text "a", .action [.command [.field ".A"]], .text "b"])
    let data : Members Unit := .ofDict [("A", .string "<")]
    let events := d.events .text data () ""
    let asked := d.events (.limited 1) data () []
    let run := d.execute "run" (.limited 1) data () []
    Sink.text.Tireless ∧ (Sink.limited 1).FailsBehind Written.isPiece 1 (written events) [] ∧
      1 < ((written events).filter Written.isPiece).length ∧
      asked = [.prepare, .write (.text "a"), .call (.field ".A") none (.value (.string "<")),
        .write (.value (.string "<"))] ∧
      run.sink = ["a"] ∧
      ∃ (before : List Event) (w : Written) (rest : List Event) (e : Error),
        events = before ++ .write w :: rest ∧ asked = before ++ [.write w] ∧
        run.error = some (e.within (Execution.failure "run")) ∧
        e = .make .io "sink is full" [("refused", "<")] := by
  intro d data events asked run
  have hfails : (Sink.limited 1).FailsBehind Written.isPiece 1 (written events) [] :=
    limited_failsBehind 1 _
  have hlt : 1 < ((written events).filter Written.isPiece).length := by decide
  obtain ⟨-, hcut⟩ := execute_cut d "run" data () tireless_text ""
  obtain ⟨-, -, hcut⟩ := hcut (.limited 1) []
  obtain ⟨before, w, rest, e, hevents, -, -, hasked, -, -, herror, -, -⟩ :=
    (hcut rfl Written.isPiece 1 hfails).2 hlt
  refine ⟨tireless_text, hfails, hlt, rfl, rfl, before, w, rest, e, hevents, hasked, herror, ?_⟩
  have hrun : run.error = some
      ((Error.make .io "sink is full" [("refused", "<")]).within (Execution.failure "run")) := rfl
  rw [hrun] at herror
  obtain ⟨fault, behind⟩ := e
  simpa [Error.within, Error.faults, Error.make, Execution.failure]
    using (Option.some.inj herror).symm

end Stencil
