import Stencil.Proofs.Execution.Journal

/-!
# The script of a tree

Which texts are written, where values are written between them, and where a helper is called with
nothing depends on the tree alone. The script of a tree lists its texts, with a gap for each value.
No run writes anything else, and data that has an answer to everything makes a run that writes all
of it.

Results:
* `journal_script`: what a run writes is the script, as far as the run comes.
* `journal_answering`: what is written with data that has an answer to everything.
-/

namespace Stencil

variable {σ τ : Type}

/-- The text that is handed to a sink, and a gap in the place of a value. -/
def Written.shape : Written → Option String
  | .text piece => some piece
  | .value _ => none

/-- What a visit adds to the script, and whether there is anything in the register behind it, by
whether there is anything before it. A helper that is called with nothing ends the script. -/
def scriptVisit (register : Bool) (moment : Moment) (n : Node) :
    Option (List (Option String) × Bool) :=
  match moment, n.kind with
  | .enter, .action => some ([], false)
  | .enter, .field => some ([], true)
  | .enter, .identifier => if n.value = htmlHelper ∧ register = false then none else some ([], true)
  | .leave, .text => some ([some n.value], register)
  | .leave, .action => some (if register then [none] else [], false)
  | _, _ => some ([], register)

/-- The script of visits. -/
def scriptFrom (register : Bool) : List (Moment × Node) → List (Option String)
  | [] => []
  | (moment, n) :: visits =>
    match scriptVisit register moment n with
    | none => []
    | some (out, register) => out ++ scriptFrom register visits

/-- The texts that a document writes, with a gap in the place of each value. -/
def Document.script (d : Document) : List (Option String) := scriptFrom false d.root.tour

/-- Every member exists, and answers nothing. -/
def Members.answering : Members Unit where
  has _ := true
  invoke _ _ s := (.value .null, s)

namespace Execution

/-- The journal of a frame as a script. -/
def shapes (f : Frame σ (τ × List Written)) : List (Option String) := f.sink.2.map Written.shape

theorem shapes_snoc (f : Frame σ (τ × List Written)) (r : Option Value) (s : σ) (t : τ)
    (w : Written) :
    shapes (⟨r, s, (t, f.sink.2 ++ [w])⟩ : Frame σ (τ × List Written)) = shapes f ++ [w.shape] := by
  simp [shapes]

/-- A visit has done what the script says. -/
def Follows (f : Frame σ (τ × List Written)) (moment : Moment) (n : Node)
    (g : Frame σ (τ × List Written)) : Prop :=
  ∃ out, scriptVisit f.register.isSome moment n = some (out, g.register.isSome) ∧
    shapes g = shapes f ++ out

/-- A visit has failed with nothing written, or with what the script says. -/
def Breaks (f : Frame σ (τ × List Written)) (moment : Moment) (n : Node)
    (g : Frame σ (τ × List Written)) : Prop :=
  shapes g = shapes f ∨ ∃ out next, scriptVisit f.register.isSome moment n = some (out, next) ∧
    shapes g = shapes f ++ out

theorem evaluate_follows (data : Members σ) {n : Node} (f : Frame σ (τ × List Written))
    (h : n.kind = .field ∨ n.kind = .identifier) :
    Ends (f = ·) (evaluate data n) (Follows f .enter n) (Breaks f .enter n) := by
  refine ends_evaluate ?_ (by rintro _ s rfl; exact .inl rfl)
  rintro _ v s rfl hv
  refine ⟨[], ?_, (List.append_nil _).symm⟩
  rcases h with h | h
  · simp [scriptVisit, h]
  · by_cases hcall : n.value = htmlHelper ∧ f.register.isSome = false
    · have hr : f.register = none := by simpa using hcall.2
      rw [hr] at hv
      simp only [invoke, h, hcall.1, invoke_html] at hv
      cases hv
    · simp only [scriptVisit, h, if_neg hcall]
      rfl

theorem visit_follows (data : Members σ) (sink : Sink τ) (moment : Moment) (n : Node)
    (f : Frame σ (τ × List Written)) :
    Ends (f = ·) (visit data sink.journaled moment n) (Follows f moment n) (Breaks f moment n) := by
  have hpure : ∀ {moment : Moment} {n : Node},
      scriptVisit f.register.isSome moment n = some ([], f.register.isSome) →
        Ends (f = ·) (pure ()) (Follows f moment n) (Breaks f moment n) := by
    intro moment n h
    refine ends_pure ?_
    rintro _ rfl
    exact ⟨[], h, (List.append_nil _).symm⟩
  obtain ⟨kind, value, children⟩ := n
  cases moment with
  | enter =>
    cases kind with
    | root => exact hpure rfl
    | text => exact hpure rfl
    | command => exact hpure rfl
    | field => exact evaluate_follows data f (n := ⟨.field, value, children⟩) (.inl rfl)
    | identifier =>
      exact evaluate_follows data f (n := ⟨.identifier, value, children⟩) (.inr rfl)
    | action =>
      refine ends_setRegister ?_
      rintro _ rfl
      exact ⟨[], rfl, (List.append_nil _).symm⟩
  | leave =>
    cases kind with
    | root => exact hpure rfl
    | command => exact hpure rfl
    | field => exact hpure rfl
    | identifier => exact hpure rfl
    | text =>
      refine ends_output ?_ ?_
      · rintro _ rfl
        exact ⟨[some value], rfl, shapes_snoc f f.register f.data _ (.text value)⟩
      · rintro _ rfl
        exact .inr ⟨[some value], _, rfl, shapes_snoc f f.register f.data _ (.text value)⟩
    | action =>
      refine ends_writeRegister ?_ ?_ ?_
      · rintro _ rfl hr
        refine ⟨[], ?_, (List.append_nil _).symm⟩
        simp [scriptVisit, hr]
      · rintro _ v rfl hr
        refine ⟨[none], ?_, shapes_snoc f none f.data _ (.value v)⟩
        simp [scriptVisit, hr]
      · rintro _ v rfl hr
        refine .inr ⟨[none], false, ?_, shapes_snoc f none f.data _ (.value v)⟩
        simp [scriptVisit, hr]

/-- A visit fails only where the script ends. -/
def Answers (data : Members σ) (sink : Sink τ) : Prop :=
  ∀ (moment : Moment) (n : Node) (f : Frame σ (τ × List Written)),
    Ends (f = ·) (visit data sink.journaled moment n) (fun _ => True)
      fun g => scriptVisit f.register.isSome moment n = none ∧ shapes g = shapes f

/-- **Visits.** They may end before the script does, if `p` does not say that none fails before. -/
theorem visits_follow {data : Members σ} {sink : Sink τ} {p : Prop}
    (hp : p → Answers data sink) : ∀ (visits : List (Moment × Node))
      (f : Frame σ (τ × List Written)),
        Ends (f = ·) (visits.forM fun (w, n) => visit data sink.journaled w n)
          (fun g => shapes g = shapes f ++ scriptFrom f.register.isSome visits)
          fun g => ∃ out, shapes g = shapes f ++ out ∧
            out <+: scriptFrom f.register.isSome visits ∧
            (p → out = scriptFrom f.register.isSome visits)
  | [], f => ends_pure (by rintro _ rfl; exact (List.append_nil _).symm)
  | (w, n) :: visits, f => by
    rintro _ rfl
    have hvisit := visit_follows data sink w n f f rfl
    have hanswers := fun h => hp h w n f f rfl
    rw [List.forM_eq_forM, List.forM_cons, runFrom_bind]
    dsimp only
    generalize runFrom (visit data sink.journaled w n) f = r at hvisit hanswers
    obtain ⟨_ | _, g⟩ := r
    · -- The run ends here. If visits fail only where the script ends, so does the script.
      have hend : p → scriptVisit f.register.isSome w n = none ∧ shapes g = shapes f := hanswers
      rcases hvisit with h | ⟨out, next, hout, h⟩
      · refine ⟨[], by rw [h, List.append_nil], List.nil_prefix, fun h => ?_⟩
        rw [scriptFrom, (hend h).1]
      · refine ⟨out, h, by rw [scriptFrom, hout]; exact List.prefix_append _ _, fun h => ?_⟩
        rw [(hend h).1] at hout
        cases hout
    · obtain ⟨out, hout, h⟩ := hvisit
      have ih := visits_follow hp visits g g rfl
      rw [scriptFrom, hout]
      dsimp only
      generalize runFrom (visits.forM fun (w, n) => visit data sink.journaled w n) g = r at ih ⊢
      obtain ⟨_ | _, g'⟩ := r
      · obtain ⟨post, hg, hpost, hall⟩ := ih
        exact ⟨out ++ post, by rw [hg, h, List.append_assoc],
          (List.prefix_append_right_inj out).2 hpost, fun h => by rw [hall h]⟩
      · show shapes g' = _
        rw [ih, h, List.append_assoc]

/-! ## Data that has an answer to everything -/

theorem evaluate_answering {n : Node} (f : Frame Unit (τ × List Written))
    (h : n.kind = .field ∨ n.kind = .identifier) :
    Ends (f = ·) (evaluate .answering n) (fun _ => True)
      fun g => scriptVisit f.register.isSome .enter n = none ∧ shapes g = shapes f := by
  rintro _ rfl
  rw [runFrom_evaluate]
  rcases h with h | h
  · simp only [invoke, h]
    trivial
  · by_cases hn : n.value = htmlHelper
    · simp only [invoke, h, hn, invoke_html]
      cases hr : f.register with
      | none => exact ⟨by simp [scriptVisit, h, hn], rfl⟩
      | some v => trivial
    · simp only [invoke, h, invoke_of_ne _ hn]
      trivial

theorem answers_answering : Answers .answering .text := by
  intro moment n f
  obtain ⟨kind, value, children⟩ := n
  cases moment with
  | enter =>
    cases kind with
    | field => exact evaluate_answering f (n := ⟨.field, value, children⟩) (.inl rfl)
    | identifier => exact evaluate_answering f (n := ⟨.identifier, value, children⟩) (.inr rfl)
    | action => exact ends_setRegister fun _ _ => trivial
    | root => exact ends_pure fun _ _ => trivial
    | text => exact ends_pure fun _ _ => trivial
    | command => exact ends_pure fun _ _ => trivial
  | leave =>
    cases kind with
    | text =>
      intro g _
      rw [visit_leave_text, runFrom_output]
      trivial
    | action =>
      intro g _
      rw [visit_leave_action, runFrom_writeRegister]
      cases g.register with
      | none => trivial
      | some v =>
        simp only [Sink.journaled, text_writeValue]
        trivial
    | root => exact ends_pure fun _ _ => trivial
    | command => exact ends_pure fun _ _ => trivial
    | field => exact ends_pure fun _ _ => trivial
    | identifier => exact ends_pure fun _ _ => trivial

end Execution

/-! ## Documents -/

open Execution

/-- **Runs.** What is written is the front of the script. -/
theorem journal_script (d : Document) (name : String) (sink : Sink τ) (data : Members σ)
    (state : σ) (target : τ) :
    (d.journal name sink data state target).map Written.shape <+: d.script := by
  have hprepare : Ends (⟨none, state, (target, [])⟩ = ·) (output sink.journaled.prepare)
      (fun f => f.register = none ∧ shapes f = []) fun f => shapes f <+: d.script :=
    ends_output (by rintro _ rfl; exact ⟨rfl, rfl⟩) (by rintro _ rfl; exact List.nil_prefix)
  have hwalk : Ends (⟨none, state, (target, [])⟩ = ·) (walk data sink.journaled d.root)
      (fun f => shapes f <+: d.script) fun f => shapes f <+: d.script := by
    unfold walk
    rw [Node.walk_eq_tour]
    refine hprepare.seq fun f hf => ?_
    refine (visits_follow (p := False) False.elim d.root.tour f).mono (fun _ hf => hf) ?_ ?_ f rfl
    · intro g hg
      rw [hf.1, hf.2] at hg
      exact ⟨[], by rw [List.append_nil]; exact hg⟩
    · rintro g ⟨out, hg, hout, -⟩
      rw [hf.1] at hout
      rw [hg, hf.2]
      exact hout
  have h := execute_of_ends (Q := fun _ t => t.2.map Written.shape <+: d.script)
    (E := fun _ t => t.2.map Written.shape <+: d.script) hwalk name state (target, []) rfl
  rwa [ite_self] at h

/-- Data that has an answer to everything makes a run that writes all of the script. -/
theorem journal_answering (d : Document) (name : String) :
    (d.journal name .text .answering () "").map Written.shape = d.script := by
  have hwalk : Ends (⟨none, (), ("", [])⟩ = ·) (walk .answering Sink.text.journaled d.root)
      (fun f => shapes f = d.script) fun f => shapes f = d.script := by
    rintro _ rfl
    unfold walk
    rw [Node.walk_eq_tour]
    refine (visits_follow (p := True) (fun _ => answers_answering) d.root.tour _).mono
      (fun _ hf => hf) (fun _ hg => hg) ?_ ⟨none, (), ("", [])⟩ rfl
    rintro g ⟨out, hg, -, hall⟩
    rw [hg, hall trivial]
    rfl
  have h := execute_of_ends (Q := fun _ t => t.2.map Written.shape = d.script)
    (E := fun _ t => t.2.map Written.shape = d.script) hwalk name () ("", []) rfl
  rwa [ite_self] at h

end Stencil
