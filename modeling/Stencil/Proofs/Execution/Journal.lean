import Stencil.Proofs.Execution.Alike

/-!
# Journals

A journal lists what an execution hands to its sink: texts and values, each before it is known
whether the sink takes it. A record lists the calls that it makes on its data. Both are kept beside
a sink or an object of data that answers as before, so a run with them is the run without.

Results:
* `execute_journaled`, `execute_recorded`: a run that is watched is the run that is not.
* `execute_text`: what is collected as text is what the journal lists, put together.
-/

namespace Stencil

variable {σ τ : Type}

/-- What is handed to a sink. -/
inductive Written where
  | text (piece : String)
  | value (v : Value)

/-- What it comes to as text. -/
def Written.output : Written → String
  | text piece => piece
  | value v => v.text

/-- A journal as text. -/
def joined (ws : List Written) : String := String.join (ws.map Written.output)

@[simp] theorem joined_nil : joined [] = "" := by simp [joined]

@[simp] theorem joined_cons (w : Written) (ws : List Written) :
    joined (w :: ws) = w.output ++ joined ws := by
  simp [joined]

@[simp] theorem joined_append (ws vs : List Written) :
    joined (ws ++ vs) = joined ws ++ joined vs := by
  simp [joined]

/-- A sink that notes down what is handed to it. -/
def Sink.journaled (sink : Sink τ) : Sink (τ × List Written) where
  prepare t := ((sink.prepare t.1).1, (sink.prepare t.1).2, t.2)
  write piece t := ((sink.write piece t.1).1, (sink.write piece t.1).2, t.2 ++ [.text piece])
  writeValue v t := ((sink.writeValue v t.1).1, (sink.writeValue v t.1).2, t.2 ++ [.value v])

/-- Data that notes down which of its members is called, and with what. -/
def Members.recorded (data : Members σ) : Members (σ × List (String × Option Value)) where
  has := data.has
  invoke name arg s :=
    ((data.invoke name arg s.1).1, (data.invoke name arg s.1).2, s.2 ++ [(name, arg)])

/-- What an execution hands to its sink. -/
def Document.journal (d : Document) (name : String) (sink : Sink τ) (data : Members σ) (state : σ)
    (target : τ) : List Written :=
  (d.execute name sink.journaled data state (target, [])).sink.2

/-- The calls that an execution makes on its data. -/
def Document.calls (d : Document) (name : String) (sink : Sink τ) (data : Members σ) (state : σ)
    (target : τ) : List (String × Option Value) :=
  (d.execute name sink data.recorded (state, []) target).data.2

theorem alike_journaled (sink : Sink τ) :
    Sink.Alike (fun t (p : τ × List Written) => p.1 = t) sink sink.journaled where
  prepare := by rintro _ p rfl; exact ⟨rfl, rfl⟩
  write := by rintro piece _ p rfl; exact ⟨rfl, rfl⟩
  writeValue := by rintro v _ p rfl; exact ⟨rfl, rfl⟩

theorem alike_recorded (data : Members σ) :
    Members.Alike (fun s (p : σ × List (String × Option Value)) => p.1 = s) data
      data.recorded where
  has := rfl
  invoke := by rintro name arg _ p rfl; exact ⟨rfl, rfl⟩

theorem Members.alike_refl (data : Members σ) : Members.Alike Eq data data where
  has := rfl
  invoke := by rintro name arg s _ rfl; exact ⟨rfl, rfl⟩

theorem Sink.alike_refl (sink : Sink τ) : Sink.Alike Eq sink sink where
  prepare := by rintro t _ rfl; exact ⟨rfl, rfl⟩
  write := by rintro piece t _ rfl; exact ⟨rfl, rfl⟩
  writeValue := by rintro v t _ rfl; exact ⟨rfl, rfl⟩

/-- A run with a journal is the run without. -/
theorem execute_journaled (d : Document) (name : String) (sink : Sink τ) (data : Members σ)
    (state : σ) (target : τ) (ws : List Written) :
    let run := d.execute name sink data state target
    let watched := d.execute name sink.journaled data state (target, ws)
    watched.error = run.error ∧ watched.data = run.data ∧ watched.sink.1 = run.sink := by
  have h := execute_alike data.alike_refl (alike_journaled sink) d name state state target
    (target, ws) rfl rfl
  exact ⟨h.1.symm, h.2.1.symm, h.2.2⟩

/-- A run with a record is the run without. -/
theorem execute_recorded (d : Document) (name : String) (sink : Sink τ) (data : Members σ)
    (state : σ) (target : τ) (calls : List (String × Option Value)) :
    let run := d.execute name sink data state target
    let watched := d.execute name sink data.recorded (state, calls) target
    watched.error = run.error ∧ watched.data.1 = run.data ∧ watched.sink = run.sink := by
  have h := execute_alike (alike_recorded data) sink.alike_refl d name state
    (state, calls) target target rfl rfl
  exact ⟨h.1.symm, h.2.1, h.2.2.symm⟩

/-! ## Text -/

theorem text_writeValue (v : Value) (t : String) :
    Sink.text.writeValue v t = (none, t ++ v.text) := by
  cases v with
  | null => simp [Sink.text, writeForm, Value.text, Value.textBy]
  | _ => rfl

/-- A sink of text holds what its journal lists. -/
theorem alike_text : Sink.Alike (fun t (p : String × List Written) => t = joined p.2) .text
    Sink.text.journaled where
  prepare := by rintro _ p rfl; exact ⟨rfl, rfl⟩
  write := by
    rintro piece _ p rfl
    exact ⟨rfl, by simp [Sink.journaled, Sink.text, Written.output]⟩
  writeValue := by
    rintro v _ p rfl
    refine ⟨?_, ?_⟩
    · simp only [Sink.journaled, text_writeValue]
    · simp [Sink.journaled, text_writeValue, Written.output]

/-- **Text.** What a run collects is its journal as text. -/
theorem execute_text (d : Document) (name : String) (data : Members σ) (state : σ) :
    (d.execute name .text data state "").sink = joined (d.journal name .text data state "") :=
  (execute_alike data.alike_refl alike_text d name state state "" ("", []) rfl
    (by simp)).2.2

end Stencil
