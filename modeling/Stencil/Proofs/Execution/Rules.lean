import Stencil.Execution.Basic

/-!
# Rules for executions

`runFrom` says what becomes of an execution that starts in a frame. `Ends` states of one execution
which frames it ends in, and `Lockstep` of two that they end alike, in frames that are related. Both
tell an end without an error from one with it, and both go through a sequence step by step.

Results:
* `Ends.seq`, `Lockstep.seq`: from two executions to the sequence of them.
* `execute_of_ends`, `execute_of_lockstep`: from a walk to the execution of a document.
-/

namespace Stencil

namespace Execution

section

variable {σ τ α β : Type}

/-- What becomes of an execution that starts in a frame. -/
def runFrom (x : Execution σ τ α) (f : Frame σ τ) : Except Error α × Frame σ τ := x.run.run f

theorem runFrom_pure (a : α) (f : Frame σ τ) :
    runFrom (pure a : Execution σ τ α) f = (.ok a, f) := rfl

theorem runFrom_bind (x : Execution σ τ α) (k : α → Execution σ τ β) (f : Frame σ τ) :
    runFrom (x >>= k) f =
      match runFrom x f with
      | (.ok a, g) => runFrom (k a) g
      | (.error e, g) => (.error e, g) := by
  unfold runFrom
  rw [ExceptT.run_bind, StateT.run_bind]
  generalize x.run.run f = r
  obtain ⟨a | e, g⟩ := r <;> rfl

/-! ## Steps -/

theorem runFrom_setRegister (r : Option Value) (f : Frame σ τ) :
    runFrom (setRegister r : Execution σ τ Unit) f = (.ok (), { f with register := r }) := rfl

/-- What a sink says to a request, as the end of a step. -/
def answer : Option Error → Except Error Unit
  | none => .ok ()
  | some e => .error e

theorem runFrom_output (w : τ → Option Error × τ) (f : Frame σ τ) :
    runFrom (output w : Execution σ τ Unit) f =
      (answer (w f.sink).1, { f with sink := (w f.sink).2 }) := by
  show output w f = _
  unfold output answer
  split <;> simp_all

theorem runFrom_evaluate (data : Members σ) (n : Node) (f : Frame σ τ) :
    runFrom (evaluate data n) f =
      match (invoke data n f.register f.data).1.toExcept with
      | .ok v => (.ok (), ⟨some v, (invoke data n f.register f.data).2, f.sink⟩)
      | .error e => (.error (e.within (termFailure n)),
          ⟨none, (invoke data n f.register f.data).2, f.sink⟩) := rfl

theorem runFrom_writeRegister (sink : Sink τ) (f : Frame σ τ) :
    runFrom (writeRegister sink : Execution σ τ Unit) f =
      match f.register with
      | some v => (answer (sink.writeValue v f.sink).1,
          { f with register := none, sink := (sink.writeValue v f.sink).2 })
      | none => (.ok (), { f with register := none }) := by
  show runFrom (writeRegister sink) f = _
  unfold writeRegister
  rw [runFrom_bind]
  show runFrom (setRegister none >>= _) f = _
  rw [runFrom_bind, runFrom_setRegister]
  cases f.register with
  | none => rfl
  | some v => exact runFrom_output _ _

/-! ## Visits -/

variable (data : Members σ) (sink : Sink τ) (value : String) (children : List Node)

theorem visit_enter_action :
    visit data sink .enter ⟨.action, value, children⟩ = setRegister none := rfl

theorem visit_enter_identifier :
    visit data sink .enter ⟨.identifier, value, children⟩ =
      evaluate data ⟨.identifier, value, children⟩ := rfl

theorem visit_leave_text :
    visit data sink .leave ⟨.text, value, children⟩ = output (sink.write value) := rfl

theorem visit_leave_action :
    visit data sink .leave ⟨.action, value, children⟩ = writeRegister sink := rfl

theorem walkAll_append (v : Moment → Node → Execution σ τ Unit) (ms ns : List Node) :
    Node.walkAll v (ms ++ ns) = (Node.walkAll v ms >>= fun _ => Node.walkAll v ns) := by
  induction ms with
  | nil => simp [Node.walkAll]
  | cons m ms ih => simp [Node.walkAll, ih]

end

/-! ## One execution -/

section

variable {σ τ : Type} {P P' Q Q' R E E' : Frame σ τ → Prop} {x y : Execution σ τ Unit}

/-- Started in a frame of `P`, the execution ends in one of `Q`, or with an error in one of `E`. -/
def Ends (P : Frame σ τ → Prop) (x : Execution σ τ Unit) (Q E : Frame σ τ → Prop) : Prop :=
  ∀ f, P f →
    match runFrom x f with
    | (.ok _, g) => Q g
    | (.error _, g) => E g

theorem Ends.seq (hx : Ends P x Q E) (hy : Ends Q y R E) :
    Ends P (x >>= fun _ => y) R E := by
  intro f hf
  have h := hx f hf
  rw [runFrom_bind]
  generalize runFrom x f = r at h
  obtain ⟨_ | _, g⟩ := r
  · exact h
  · exact hy g h

theorem Ends.mono (h : Ends P x Q E) (hP : ∀ f, P' f → P f) (hQ : ∀ f, Q f → Q' f)
    (hE : ∀ f, E f → E' f) : Ends P' x Q' E' := by
  intro f hf
  have h := h f (hP f hf)
  generalize runFrom x f = r at h ⊢
  obtain ⟨_ | _, g⟩ := r
  · exact hE g h
  · exact hQ g h

theorem ends_pure (h : ∀ f, P f → Q f) : Ends P (pure ()) Q E := h

theorem ends_setRegister {r : Option Value} (h : ∀ f, P f → Q { f with register := r }) :
    Ends P (setRegister r) Q E := h

theorem ends_output {w : τ → Option Error × τ}
    (hQ : ∀ f, P f → Q { f with sink := (w f.sink).2 })
    (hE : ∀ f, P f → E { f with sink := (w f.sink).2 }) : Ends P (output w) Q E := by
  intro f hf
  rw [runFrom_output]
  cases (w f.sink).1
  · exact hQ f hf
  · exact hE f hf

theorem ends_writeRegister {sink : Sink τ}
    (hnone : ∀ f, P f → f.register = none → Q { f with register := none })
    (hQ : ∀ f v, P f → f.register = some v →
      Q { f with register := none, sink := (sink.writeValue v f.sink).2 })
    (hE : ∀ f v, P f → f.register = some v →
      E { f with register := none, sink := (sink.writeValue v f.sink).2 }) :
    Ends P (writeRegister sink) Q E := by
  intro f hf
  rw [runFrom_writeRegister]
  cases hr : f.register with
  | none => exact hnone f hf hr
  | some v =>
    dsimp only
    cases (sink.writeValue v f.sink).1
    · exact hQ f v hf hr
    · exact hE f v hf hr

/-- A term is called whatever the frame. -/
theorem ends_evaluate {data : Members σ} {n : Node}
    (hQ : ∀ f v s, P f → invoke data n f.register f.data = (.value v, s) → Q ⟨some v, s, f.sink⟩)
    (hE : ∀ f s, P f → E ⟨none, s, f.sink⟩) : Ends P (evaluate data n) Q E := by
  intro f hf
  rw [runFrom_evaluate]
  have hQ := fun v s => hQ f v s hf
  generalize invoke data n f.register f.data = r at hQ
  obtain ⟨outcome, s⟩ := r
  cases outcome with
  | value v => exact hQ v s rfl
  | failure e => exact hE f s hf
  | panic message => exact hE f s hf

end

/-! ## Two executions -/

section

variable {σ τ σ' τ' : Type} {P P' Q Q' R E E' : Frame σ τ → Frame σ' τ' → Prop}
  {x y : Execution σ τ Unit} {x' y' : Execution σ' τ' Unit}

/-- Started in frames of `P`, both executions end without an error in frames of `Q`, or both with
the same error in frames of `E`. -/
def Lockstep (P : Frame σ τ → Frame σ' τ' → Prop) (x : Execution σ τ Unit)
    (x' : Execution σ' τ' Unit) (Q E : Frame σ τ → Frame σ' τ' → Prop) : Prop :=
  ∀ f f', P f f' →
    match runFrom x f, runFrom x' f' with
    | (.ok _, g), (.ok _, g') => Q g g'
    | (.error e, g), (.error e', g') => e = e' ∧ E g g'
    | _, _ => False

theorem Lockstep.seq (hx : Lockstep P x x' Q E) (hy : Lockstep Q y y' R E) :
    Lockstep P (x >>= fun _ => y) (x' >>= fun _ => y') R E := by
  intro f f' hf
  have h := hx f f' hf
  rw [runFrom_bind, runFrom_bind]
  generalize runFrom x f = r at h
  generalize runFrom x' f' = r' at h
  obtain ⟨_ | _, g⟩ := r <;> obtain ⟨_ | _, g'⟩ := r'
  · exact h
  · exact h.elim
  · exact h.elim
  · exact hy g g' h

theorem Lockstep.mono (h : Lockstep P x x' Q E) (hP : ∀ f f', P' f f' → P f f')
    (hQ : ∀ f f', Q f f' → Q' f f') (hE : ∀ f f', E f f' → E' f f') :
    Lockstep P' x x' Q' E' := by
  intro f f' hf
  have h := h f f' (hP f f' hf)
  generalize runFrom x f = r at h ⊢
  generalize runFrom x' f' = r' at h ⊢
  obtain ⟨_ | _, g⟩ := r <;> obtain ⟨_ | _, g'⟩ := r'
  · exact ⟨h.1, hE g g' h.2⟩
  · exact h.elim
  · exact h.elim
  · exact hQ g g' h

/-- What is known of the execution on the left may be added. -/
theorem Lockstep.and_left {L M N : Frame σ τ → Prop} (h : Lockstep P x x' Q E)
    (hl : Ends L x M N) :
    Lockstep (fun f f' => P f f' ∧ L f) x x' (fun f f' => Q f f' ∧ M f) E := by
  rintro f f' ⟨hf, hL⟩
  have h := h f f' hf
  have hl := hl f hL
  generalize runFrom x f = r at h hl ⊢
  generalize runFrom x' f' = r' at h ⊢
  obtain ⟨_ | _, g⟩ := r <;> obtain ⟨_ | _, g'⟩ := r'
  · exact h
  · exact h.elim
  · exact h.elim
  · exact ⟨h, hl⟩

theorem lockstep_pure (h : ∀ f f', P f f' → Q f f') : Lockstep P (pure ()) (pure ()) Q E := h

theorem lockstep_setRegister {r : Option Value}
    (h : ∀ f f', P f f' → Q { f with register := r } { f' with register := r }) :
    Lockstep P (setRegister r) (setRegister r) Q E := h

theorem lockstep_output {w : τ → Option Error × τ} {w' : τ' → Option Error × τ'}
    (he : ∀ f f', P f f' → (w f.sink).1 = (w' f'.sink).1)
    (hQ : ∀ f f', P f f' →
      Q { f with sink := (w f.sink).2 } { f' with sink := (w' f'.sink).2 })
    (hE : ∀ f f', P f f' →
      E { f with sink := (w f.sink).2 } { f' with sink := (w' f'.sink).2 }) :
    Lockstep P (output w) (output w') Q E := by
  intro f f' hf
  rw [runFrom_output, runFrom_output, he f f' hf]
  cases (w' f'.sink).1
  · exact hQ f f' hf
  · exact ⟨rfl, hE f f' hf⟩

/-- One term, called with the same on both sides, by data that answers the same. -/
theorem lockstep_evaluate {data : Members σ} {data' : Members σ'} {n : Node}
    (hi : ∀ f f', P f f' → (invoke data n f.register f.data).1 =
      (invoke data' n f'.register f'.data).1)
    (hQ : ∀ f f' v, P f f' → Q ⟨some v, (invoke data n f.register f.data).2, f.sink⟩
      ⟨some v, (invoke data' n f'.register f'.data).2, f'.sink⟩)
    (hE : ∀ f f', P f f' → E ⟨none, (invoke data n f.register f.data).2, f.sink⟩
      ⟨none, (invoke data' n f'.register f'.data).2, f'.sink⟩) :
    Lockstep P (evaluate data n) (evaluate data' n) Q E := by
  intro f f' hf
  rw [runFrom_evaluate, runFrom_evaluate, hi f f' hf]
  cases (invoke data' n f'.register f'.data).1.toExcept with
  | ok v => exact hQ f f' v hf
  | error e => exact ⟨rfl, hE f f' hf⟩

/-- Registers that are both empty, or hold values that their sinks answer alike. -/
theorem lockstep_writeRegister {sink : Sink τ} {sink' : Sink τ'}
    (h : ∀ f f', P f f' →
      match f.register, f'.register with
      | some v, some v' =>
        (sink.writeValue v f.sink).1 = (sink'.writeValue v' f'.sink).1 ∧
          Q { f with register := none, sink := (sink.writeValue v f.sink).2 }
            { f' with register := none, sink := (sink'.writeValue v' f'.sink).2 } ∧
          E { f with register := none, sink := (sink.writeValue v f.sink).2 }
            { f' with register := none, sink := (sink'.writeValue v' f'.sink).2 }
      | none, none => Q { f with register := none } { f' with register := none }
      | _, _ => False) :
    Lockstep P (writeRegister sink) (writeRegister sink') Q E := by
  intro f f' hf
  have h := h f f' hf
  rw [runFrom_writeRegister, runFrom_writeRegister]
  cases hr : f.register <;> cases hr' : f'.register <;> rw [hr, hr'] at h
  · exact h
  · exact h.elim
  · exact h.elim
  · obtain ⟨he, hQ, hE⟩ := h
    dsimp only
    rw [he]
    cases (sink'.writeValue _ f'.sink).1
    · exact hQ
    · exact ⟨rfl, hE⟩

end

/-! ## Documents -/

section

variable {σ τ σ' τ' : Type}

/-- Where the execution of a document ends, by where the walk does. -/
theorem execute_of_ends {data : Members σ} {sink : Sink τ} {d : Document}
    {P : Frame σ τ → Prop} {Q E : σ → τ → Prop}
    (h : Ends P (walk data sink d.root) (fun f => Q f.data f.sink) fun f => E f.data f.sink)
    (name : String) (state : σ) (target : τ) (hP : P ⟨none, state, target⟩) :
    if (d.execute name sink data state target).error = none then
      Q (d.execute name sink data state target).data (d.execute name sink data state target).sink
    else
      E (d.execute name sink data state target).data
        (d.execute name sink data state target).sink := by
  have h := h _ hP
  unfold Document.execute
  unfold runFrom at h
  generalize (walk data sink d.root).run.run ⟨none, state, target⟩ = r at h ⊢
  obtain ⟨_ | _, g⟩ := r
  · simpa using h
  · simpa using h

theorem execute_of_lockstep {data : Members σ} {sink : Sink τ} {data' : Members σ'}
    {sink' : Sink τ'} {d d' : Document} {P : Frame σ τ → Frame σ' τ' → Prop}
    {Q : σ → σ' → τ → τ' → Prop}
    (h : Lockstep P (walk data sink d.root) (walk data' sink' d'.root)
      (fun f f' => Q f.data f'.data f.sink f'.sink)
      (fun f f' => Q f.data f'.data f.sink f'.sink))
    (name : String) (state : σ) (state' : σ') (target : τ) (target' : τ')
    (hP : P ⟨none, state, target⟩ ⟨none, state', target'⟩) :
    (d.execute name sink data state target).error =
        (d'.execute name sink' data' state' target').error ∧
      Q (d.execute name sink data state target).data
        (d'.execute name sink' data' state' target').data
        (d.execute name sink data state target).sink
        (d'.execute name sink' data' state' target').sink := by
  have h := h _ _ hP
  unfold Document.execute
  unfold runFrom at h
  generalize (walk data sink d.root).run.run ⟨none, state, target⟩ = r at h ⊢
  generalize (walk data' sink' d'.root).run.run ⟨none, state', target'⟩ = r' at h ⊢
  obtain ⟨_ | _, g⟩ := r <;> obtain ⟨_ | _, g'⟩ := r'
  · exact ⟨by rw [h.1], h.2⟩
  · exact h.elim
  · exact h.elim
  · exact ⟨rfl, h⟩

end

end Execution

end Stencil
