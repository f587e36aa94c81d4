import Stencil.Proofs.Execution.Alike
import Stencil.Proofs.Tree.Layout

/-!
# What an action does

In a template that has been read an action is its terms, called one after the other, between the
emptying of the register and the writing of it. Where a command ends makes no difference.

Results:
* `walk_action`: the walk over an action in these terms.
* `walk_text`: the walk over a text writes it.
* `terms_alike`: terms called by data that answers alike.
* `ends_terms`: terms leave something in the register, unless there are none.
-/

namespace Stencil

/-- The terms of all commands, in order. -/
def termsOf (commands : List Node) : List Node := commands.flatMap Node.children

theorem termsOf_ne_nil {commands : List Node} (hne : commands ≠ [])
    (h : ∀ c ∈ commands, IsCommand c) : termsOf commands ≠ [] := by
  obtain ⟨c, commands, rfl⟩ := List.exists_cons_of_ne_nil hne
  obtain @⟨terms, hterms, -⟩ := h c List.mem_cons_self
  simp [termsOf, Node.command, hterms]

theorem termsOf_concat (init terms : List Node) :
    termsOf (init ++ [.command terms]) = termsOf init ++ terms := by
  simp [termsOf, Node.command]

namespace Execution

variable {σ τ σ' τ' : Type} (data : Members σ) (sink : Sink τ)

theorem walk_text (value : String) :
    (Node.text value).walk (visit data sink) = output (sink.write value) := by
  simp only [Node.text, Node.walk, Node.walkAll, visit_leave_text]
  rfl

theorem walk_term {t : Node} (h : IsTerm t) : t.walk (visit data sink) = evaluate data t := by
  have hrest : ∀ x : Execution σ τ Unit, (do x; pure (); pure ()) = x := by simp
  cases h with
  | field name => exact hrest (evaluate data (.field name))
  | identifier name => exact hrest (evaluate data (.identifier name))

theorem walkAll_terms : ∀ {terms : List Node}, (∀ t ∈ terms, IsTerm t) →
    Node.walkAll (visit data sink) terms = terms.forM (evaluate data)
  | [], _ => rfl
  | t :: ts, h => by
    obtain ⟨ht, hts⟩ := List.forall_mem_cons.1 h
    rw [Node.walkAll, walk_term data sink ht, walkAll_terms hts]
    rfl

theorem walkAll_commands : ∀ {commands : List Node}, (∀ c ∈ commands, IsCommand c) →
    Node.walkAll (visit data sink) commands = (termsOf commands).forM (evaluate data)
  | [], _ => rfl
  | c :: cs, h => by
    obtain ⟨hc, hcs⟩ := List.forall_mem_cons.1 h
    obtain @⟨terms, -, hterms⟩ := hc
    have hcommand : (Node.command terms).walk (visit data sink) =
        terms.forM (evaluate data) := by
      simp only [Node.command, Node.walk, walkAll_terms data sink hterms]
      show (do pure (); terms.forM (evaluate data); pure ()) = _
      simp
    rw [Node.walkAll, hcommand, walkAll_commands hcs]
    simp [termsOf, Node.command]

/-- **Actions.** -/
theorem walk_action {commands : List Node} (h : ∀ c ∈ commands, IsCommand c) :
    (Node.action commands).walk (visit data sink) =
      (setRegister none >>= fun _ => (termsOf commands).forM (evaluate data) >>= fun _ =>
        writeRegister sink) := by
  simp only [Node.action, Node.walk, visit_enter_action, visit_leave_action,
    walkAll_commands data sink h]

theorem forM_concat (terms : List Node) (t : Node) :
    ((terms ++ [t]).forM (evaluate data) : Execution σ τ Unit) =
      (terms.forM (evaluate data) >>= fun _ => evaluate data t) := by
  induction terms with
  | nil => simp
  | cons u terms ih => simp_all

variable {data}

theorem terms_alike {data' : Members σ'} {D : σ → σ' → Prop} {T : τ → τ' → Prop}
    (hd : Members.Alike D data data') (terms : List Node) :
    Lockstep (Level D T) (terms.forM (evaluate data)) (terms.forM (evaluate data')) (Level D T)
      (Level D T) := by
  induction terms with
  | nil => exact lockstep_pure fun _ _ hf => hf
  | cons t ts ih => exact (evaluate_alike hd t).seq ih

/-- Terms write nothing. -/
theorem ends_terms {P : τ → Prop} (terms : List Node) :
    Ends (fun f => P f.sink) (terms.forM (evaluate data))
      (fun f => P f.sink ∧ (terms ≠ [] → f.register ≠ none)) fun f => P f.sink := by
  induction terms with
  | nil => exact ends_pure fun _ hf => ⟨hf, by simp⟩
  | cons t ts ih =>
    have ht : Ends (fun f => P f.sink) (evaluate data t)
        (fun f => P f.sink ∧ f.register ≠ none) fun f => P f.sink :=
      ends_evaluate (fun f v s hf _ => ⟨hf, by simp⟩) fun f s hf => hf
    cases ts with
    | nil =>
      exact ht.seq (ends_pure fun f hf => ⟨hf.1, fun _ => hf.2⟩)
    | cons u us =>
      refine Ends.seq (ht.mono (fun _ hf => hf) (fun _ hf => hf.1) fun _ hf => hf)
        (ih.mono (fun _ hf => hf) (fun f hf => ?_) fun _ hf => hf)
      exact ⟨hf.1, fun _ => hf.2 (by simp)⟩

end Execution

end Stencil
