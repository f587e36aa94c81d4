import Stencil.Proofs.Execution.Rules

/-!
# Data and sinks that answer alike

Two objects of data are alike if each call, from related states, has the same outcome on both and
leads to related states, and two sinks are alike if each request does. A template that is executed
with both ends alike.

Results:
* `execute_alike`: the runs have the same error, and end in related states.
-/

namespace Stencil

variable {σ σ' τ τ' : Type}

structure Members.Alike (D : σ → σ' → Prop) (data : Members σ) (data' : Members σ') : Prop where
  has : data.has = data'.has
  invoke : ∀ name arg s s', D s s' → (data.invoke name arg s).1 = (data'.invoke name arg s').1 ∧
    D (data.invoke name arg s).2 (data'.invoke name arg s').2

structure Sink.Alike (T : τ → τ' → Prop) (sink : Sink τ) (sink' : Sink τ') : Prop where
  prepare : ∀ t t', T t t' → (sink.prepare t).1 = (sink'.prepare t').1 ∧
    T (sink.prepare t).2 (sink'.prepare t').2
  write : ∀ piece t t', T t t' → (sink.write piece t).1 = (sink'.write piece t').1 ∧
    T (sink.write piece t).2 (sink'.write piece t').2
  writeValue : ∀ v t t', T t t' → (sink.writeValue v t).1 = (sink'.writeValue v t').1 ∧
    T (sink.writeValue v t).2 (sink'.writeValue v t').2

/-! ## Helpers -/

theorem get?_helpers (name : String) :
    (Methods.helpers (σ := σ)).functions.get? name =
      if name = htmlHelper then some Methods.html else none :=
  Dict.get?_insert [] htmlHelper name Methods.html

theorem has_helpers (name : String) :
    (Methods.helpers.members (σ := σ)).has name = decide (name = htmlHelper) := by
  show ((Methods.helpers (σ := σ)).functions.get? name).isSome = _
  rw [get?_helpers]
  split <;> simp_all

/-- No data hides the helper. -/
theorem invoke_html (data : Members σ) :
    data.withHelpers.invoke htmlHelper = Methods.html.call := by
  funext arg s
  have hget := get?_helpers (σ := σ) htmlHelper
  rw [if_pos rfl] at hget
  simp only [Members.withHelpers, Members.orElse, has_helpers, decide_true, if_true]
  simp only [Methods.members, hget]

theorem invoke_of_ne (data : Members σ) {name : String} (h : name ≠ htmlHelper) :
    data.withHelpers.invoke name = data.invoke name := by
  funext arg
  simp only [Members.withHelpers, Members.orElse, has_helpers, h, decide_false,
    Bool.false_eq_true, if_false]

theorem Members.Alike.withHelpers {D : σ → σ' → Prop} {data : Members σ} {data' : Members σ'}
    (h : Members.Alike D data data') :
    Members.Alike D data.withHelpers data'.withHelpers where
  has := by
    funext name
    show (_ || data.has name) = (_ || data'.has name)
    rw [has_helpers, has_helpers, h.has]
  invoke name arg s s' hs := by
    by_cases hn : name = htmlHelper
    · subst hn
      rw [invoke_html, invoke_html]
      cases arg with
      | none => exact ⟨rfl, hs⟩
      | some v => exact ⟨rfl, hs⟩
    · rw [invoke_of_ne data hn, invoke_of_ne data' hn]
      exact h.invoke name arg s s' hs

/-! ## Executions -/

namespace Execution

/-- The same in the register, and the rest related. -/
def Level (D : σ → σ' → Prop) (T : τ → τ' → Prop) (f : Frame σ τ) (f' : Frame σ' τ') : Prop :=
  f.register = f'.register ∧ D f.data f'.data ∧ T f.sink f'.sink

variable {D : σ → σ' → Prop} {T : τ → τ' → Prop} {data : Members σ} {data' : Members σ'}
  {sink : Sink τ} {sink' : Sink τ'}

theorem invoke_alike (hd : Members.Alike D data data') (n : Node) (arg : Option Value) {s : σ}
    {s' : σ'} (hs : D s s') : (invoke data n arg s).1 = (invoke data' n arg s').1 ∧
      D (invoke data n arg s).2 (invoke data' n arg s').2 := by
  obtain ⟨kind, value, children⟩ := n
  cases kind with
  | field => exact hd.invoke _ arg s s' hs
  | _ => exact hd.withHelpers.invoke _ arg s s' hs

theorem evaluate_alike (hd : Members.Alike D data data') (n : Node) :
    Lockstep (Level D T) (evaluate data n) (evaluate data' n) (Level D T) (Level D T) := by
  have hi : ∀ (f : Frame σ τ) (f' : Frame σ' τ'), Level D T f f' →
      (invoke data n f.register f.data).1 = (invoke data' n f'.register f'.data).1 ∧
        D (invoke data n f.register f.data).2 (invoke data' n f'.register f'.data).2 := by
    rintro f f' ⟨hr, hs, -⟩
    rw [hr]
    exact invoke_alike hd n f'.register hs
  exact lockstep_evaluate (fun f f' hf => (hi f f' hf).1)
    (fun f f' _ hf => ⟨rfl, (hi f f' hf).2, hf.2.2⟩) fun f f' hf => ⟨rfl, (hi f f' hf).2, hf.2.2⟩

theorem output_alike {w : τ → Option Error × τ} {w' : τ' → Option Error × τ'}
    (h : ∀ t t', T t t' → (w t).1 = (w' t').1 ∧ T (w t).2 (w' t').2) :
    Lockstep (Level D T) (output w) (output w') (Level D T) (Level D T) :=
  lockstep_output (fun _ _ hf => (h _ _ hf.2.2).1)
    (fun _ _ hf => ⟨hf.1, hf.2.1, (h _ _ hf.2.2).2⟩)
    fun _ _ hf => ⟨hf.1, hf.2.1, (h _ _ hf.2.2).2⟩

theorem writeRegister_alike (hs : Sink.Alike T sink sink') :
    Lockstep (Level D T) (writeRegister sink) (writeRegister sink') (Level D T) (Level D T) := by
  refine lockstep_writeRegister ?_
  rintro f f' ⟨hr, hd, ht⟩
  rw [← hr]
  cases f.register with
  | none => exact ⟨rfl, hd, ht⟩
  | some v =>
    obtain ⟨he, ht⟩ := hs.writeValue v _ _ ht
    exact ⟨he, ⟨rfl, hd, ht⟩, ⟨rfl, hd, ht⟩⟩

theorem visit_alike (hd : Members.Alike D data data') (hs : Sink.Alike T sink sink') (w : Moment)
    (n : Node) : Lockstep (Level D T) (visit data sink w n) (visit data' sink' w n) (Level D T)
      (Level D T) := by
  unfold visit
  split
  · exact lockstep_setRegister fun _ _ hf => ⟨rfl, hf.2⟩
  · exact evaluate_alike hd n
  · exact evaluate_alike hd n
  · exact output_alike (hs.write n.value)
  · exact writeRegister_alike hs
  · exact lockstep_pure fun _ _ hf => hf

mutual

theorem walkNode_alike (hd : Members.Alike D data data') (hs : Sink.Alike T sink sink') :
    (n : Node) → Lockstep (Level D T) (n.walk (visit data sink)) (n.walk (visit data' sink'))
      (Level D T) (Level D T)
  | ⟨kind, value, children⟩ => by
    simp only [Node.walk]
    exact (visit_alike hd hs _ _).seq ((walkAll_alike hd hs children).seq (visit_alike hd hs _ _))

theorem walkAll_alike (hd : Members.Alike D data data') (hs : Sink.Alike T sink sink') :
    (ns : List Node) → Lockstep (Level D T) (Node.walkAll (visit data sink) ns)
      (Node.walkAll (visit data' sink') ns) (Level D T) (Level D T)
  | [] => lockstep_pure fun _ _ hf => hf
  | n :: ns => by
    simp only [Node.walkAll]
    exact (walkNode_alike hd hs n).seq (walkAll_alike hd hs ns)

end

theorem walk_alike (hd : Members.Alike D data data') (hs : Sink.Alike T sink sink') (n : Node) :
    Lockstep (Level D T) (walk data sink n) (walk data' sink' n) (Level D T) (Level D T) :=
  (output_alike hs.prepare).seq (walkNode_alike hd hs n)

end Execution

/-- **Like data and like sinks.** The runs end alike. -/
theorem execute_alike {D : σ → σ' → Prop} {T : τ → τ' → Prop} {data : Members σ}
    {data' : Members σ'} {sink : Sink τ} {sink' : Sink τ'} (hd : Members.Alike D data data')
    (hs : Sink.Alike T sink sink') (d : Document) (name : String) (state : σ) (state' : σ')
    (target : τ) (target' : τ') (hstate : D state state') (htarget : T target target') :
    (d.execute name sink data state target).error =
        (d.execute name sink' data' state' target').error ∧
      D (d.execute name sink data state target).data
        (d.execute name sink' data' state' target').data ∧
      T (d.execute name sink data state target).sink
        (d.execute name sink' data' state' target').sink :=
  Execution.execute_of_lockstep (Q := fun s s' t t' => D s s' ∧ T t t')
    ((Execution.walk_alike hd hs d.root).mono (fun _ _ hf => hf) (fun _ _ hf => hf.2)
      fun _ _ hf => hf.2) name _ _ _ _ ⟨rfl, hstate, htarget⟩

end Stencil
