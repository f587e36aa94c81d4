import Stencil.Proofs.Autoescape.Trees
import Stencil.Proofs.Execution.Actions
import Stencil.Proofs.Execution.Journal

/-!
# What an escaped template writes

A template that has been read and escaped writes one thing for each child of its root: its text
rewritten, or one value. A run that fails has done so for the first of them.

Results:
* `journal_puts`: the journal of a run, child by child.
-/

namespace Stencil.Autoescape

open Execution

variable {σ τ : Type}

/-- What is written for a child of the root. -/
inductive Puts : Node → Written → Prop where
  | text (value : String) : Puts (.text value) (.text (rewrite value))
  | action (commands : List Node) (v : Value) : Puts (.action commands) (.value v)

/-- The journal is at `ws` and what has been written for some nodes. -/
def Wrote (ws : List Written) (ns : List Node) (f : Frame σ (τ × List Written)) : Prop :=
  ∃ vs, f.sink.2 = ws ++ vs ∧ List.Forall₂ Puts ns vs

theorem wrote_nil {ws : List Written} {f : Frame σ (τ × List Written)} :
    Wrote ws [] f ↔ f.sink.2 = ws := by
  simp [Wrote]

/-- An execution that writes for nodes, one after the other, as far as it comes. -/
def Writes (ns : List Node) (x : Execution σ (τ × List Written) Unit) : Prop :=
  ∀ ws, Ends (fun f => f.sink.2 = ws) x (Wrote ws ns) fun f => ∃ done, done <+: ns ∧ Wrote ws done f

theorem Writes.seq {ns ms : List Node} {x y : Execution σ (τ × List Written) Unit}
    (hx : Writes ns x) (hy : Writes ms y) : Writes (ns ++ ms) (x >>= fun _ => y) := by
  have append : ∀ {ws vs : List Written} {done : List Node} {f : Frame σ (τ × List Written)},
      List.Forall₂ Puts ns vs → Wrote (ws ++ vs) done f → Wrote ws (ns ++ done) f := by
    rintro ws vs done f hvs ⟨us, hf, hus⟩
    exact ⟨vs ++ us, by simp [hf], List.rel_append hvs hus⟩
  intro ws
  refine Ends.seq (Q := Wrote ws ns) ((hx ws).mono (fun _ hf => hf) (fun _ hf => hf) ?_) ?_
  · rintro f ⟨done, hdone, hf⟩
    exact ⟨done, hdone.trans (List.prefix_append ns ms), hf⟩
  · rintro f ⟨vs, hf, hvs⟩
    have h := hy (ws ++ vs) f hf
    generalize runFrom y f = r at h ⊢
    obtain ⟨_ | _, g⟩ := r
    · obtain ⟨done, hdone, hg⟩ := h
      exact ⟨ns ++ done, (List.prefix_append_right_inj ns).2 hdone, append hvs hg⟩
    · exact append hvs h

section

variable (data : Members σ) (sink : Sink τ)

theorem writes_text (value : String) :
    Writes [.text value] ((Node.text (rewrite value)).walk (visit data sink.journaled)) := by
  intro ws
  have hwrote : ∀ (f : Frame σ (τ × List Written)) (t : τ), f.sink.2 = ws →
      Wrote ws [.text value] { f with sink := (t, f.sink.2 ++ [.text (rewrite value)]) } :=
    fun f t hf => ⟨[.text (rewrite value)], by rw [hf], .cons (.text value) .nil⟩
  rw [walk_text]
  exact ends_output (fun f hf => hwrote f _ hf)
    fun f hf => ⟨_, List.prefix_rfl, hwrote f _ hf⟩

theorem writes_action {commands : List Node} (hne : commands ≠ [])
    (h : ∀ c ∈ commands, IsCommand c) (plain : List Node) :
    Writes [.action plain] ((Node.action commands).walk (visit data sink.journaled)) := by
  intro ws
  rw [walk_action data _ h]
  refine Ends.seq (Q := fun f => f.sink.2 = ws) (ends_setRegister fun _ hf => hf) ?_
  refine Ends.seq (Q := fun f => f.sink.2 = ws ∧ f.register ≠ none) ?_ ?_
  · exact (ends_terms (P := fun t => t.2 = ws) (termsOf commands)).mono (fun _ hf => hf)
      (fun f hf => ⟨hf.1, hf.2 (termsOf_ne_nil hne h)⟩)
      fun f hf => ⟨[], List.nil_prefix, wrote_nil.2 hf⟩
  · have hwrote : ∀ (f : Frame σ (τ × List Written)) (v : Value) (t : τ), f.sink.2 = ws →
        Wrote ws [.action plain] (⟨none, f.data, (t, f.sink.2 ++ [.value v])⟩ : Frame σ _) :=
      fun f v t hf => ⟨[.value v], by rw [hf], .cons (.action plain v) .nil⟩
    exact ends_writeRegister (fun f hf hr => absurd hr hf.2) (fun f v hf _ => hwrote f v _ hf.1)
      fun f v hf _ => ⟨_, List.prefix_rfl, hwrote f v _ hf.1⟩

theorem writes_items {c c' : Context} {ns es : List Node} (h : EscapesAll c ns es c') :
    Writes ns (Node.walkAll (visit data sink.journaled) es) := by
  induction h with
  | nil c => exact fun ws => ends_pure fun _ hf => wrote_nil.2 hf
  | cons hn _ ih =>
    cases hn with
    | text c value => exact (writes_text data sink value).seq ih
    | action hinit hne hterms =>
      exact (writes_action data sink (by simp)
        (isCommand_concat hinit (by simp) (isTerm_concat hterms)) _).seq ih

theorem writes_nothing {x : Execution σ (τ × List Written) Unit}
    (h : ∀ ws, Ends (fun f => f.sink.2 = ws) x (fun f => f.sink.2 = ws) fun f => f.sink.2 = ws) :
    Writes [] x :=
  fun ws => (h ws).mono (fun _ hf => hf) (fun _ hf => wrote_nil.2 hf)
    fun _ hf => ⟨[], List.prefix_rfl, wrote_nil.2 hf⟩

theorem writes_walk {c c' : Context} {ns es : List Node} (h : EscapesAll c ns es c') :
    Writes ns (walk data sink.journaled (.root es)) := by
  have hprepare : Writes (σ := σ) [] (output sink.journaled.prepare) :=
    writes_nothing fun ws => ends_output (fun _ hf => hf) fun _ hf => hf
  have hpure : Writes (σ := σ) (τ := τ) [] (pure ()) :=
    writes_nothing fun ws => ends_pure fun _ hf => hf
  have hwalk := hprepare.seq (hpure.seq ((writes_items data sink h).seq hpure))
  rwa [List.append_nil] at hwalk

end

/-- **Journals.** Each child of the root has written one thing, as far as the run has come. -/
theorem journal_puts {c c' : Context} {ns es : List Node} (h : EscapesAll c ns es c')
    {e : Document} (hroot : e.root = .root es) (name : String) (sink : Sink τ) (data : Members σ)
    (state : σ) (target : τ) :
    ∃ done, done <+: ns ∧ List.Forall₂ Puts done (e.journal name sink data state target) ∧
      ((e.execute name sink data state target).error = none → done = ns) := by
  have hwalk := writes_walk data sink h []
  rw [← hroot] at hwalk
  have hexecute := execute_of_ends (Q := fun _ t => List.Forall₂ Puts ns t.2)
    (E := fun _ t => ∃ done, done <+: ns ∧ List.Forall₂ Puts done t.2)
    (hwalk.mono (fun _ hf => hf) (fun f ⟨vs, hf, hvs⟩ => by rwa [hf])
      fun f ⟨done, hdone, vs, hf, hvs⟩ => ⟨done, hdone, by rwa [hf]⟩) name state
    (target, []) rfl
  rw [← (execute_journaled e name sink data state target []).1]
  unfold Document.journal
  split at hexecute
  · exact ⟨ns, List.prefix_rfl, hexecute, fun _ => rfl⟩
  · rename_i herror
    obtain ⟨done, hdone, hputs⟩ := hexecute
    exact ⟨done, hdone, hputs, fun h => absurd h herror⟩

end Stencil.Autoescape
