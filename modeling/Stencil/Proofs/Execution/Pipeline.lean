import Stencil.Proofs.Execution.Actions
import Stencil.Proofs.Execution.Journal

/-!
# Templates as pipelines

What a template does can be said without a walk over its tree and without a register. A text is
written. An action calls its terms, whatever commands they are in: the first with no argument, each
other one with the result of the one before. Then the string form of the last result is written. The
first member that fails or panics is the end of it: nothing behind it has an effect, and what is
written stays.

`pipe` says this of terms, `item` of a child of the root and `meaning` of all of them. Each tells
which calls are made on the data.

Results:
* `Does.seq`: from two steps of a walk to both of them.
* `does_item`, `does_items`: the walk does what `item` and `meaning` say.
* `execute_eq_meaning`: the execution of a template into text, with its error and its calls.
-/

namespace Stencil

namespace Pipeline

open Execution

variable {σ : Type} (data : Members σ)

/-- The members called, each with its argument. -/
abbrev Calls := List (String × Option Value)

/-! ## Terms -/

/-- What comes of calls: a result, the state of the data, and those calls that the data got. -/
structure Effect (σ α : Type) where
  result : α
  state : σ
  calls : Calls

/-- The term that ended a template, and the error of its member. -/
structure Stop where
  term : Node
  error : Error

/-- The name of a member without the dot that marks a field. -/
def bare (value : String) : String :=
  String.ofList ((value.toList.dropPrefix? ['.']).getD value.toList)

/-- A call of the data. -/
def ask (name : String) (arg : Option Value) (s : σ) : Effect σ Outcome :=
  ⟨(data.invoke name arg s).1, (data.invoke name arg s).2, [(name, arg)]⟩

/-- A call of a helper, of which the data gets nothing. -/
def help (name : String) (arg : Option Value) (s : σ) : Effect σ Outcome :=
  ⟨(Methods.helpers.members.invoke name arg s).1, (Methods.helpers.members.invoke name arg s).2, []⟩

/-- The call of a term. -/
def call (t : Node) : Option Value → σ → Effect σ Outcome :=
  if t.kind = .field then ask data (bare t.value)
  else if (Methods.helpers (σ := σ)).contains t.value then help t.value
  else ask data t.value

/-- The error of a member that panicked. -/
def panicked (message : Option String) : Error :=
  ⟨⟨.panic, "member panicked", [(some "message", message.getD "<non-string payload>")]⟩, []⟩

/-- Terms one after the other. The first one is called with `arg`, if there is one, and each other
one with the result of the one before. -/
def pipe : List Node → Option Value → σ → Effect σ (Except Stop (Option Value))
  | [], arg, s => ⟨.ok arg, s, []⟩
  | t :: ts, arg, s =>
    let e := call data t arg s
    match e.result with
    | .value v =>
      let rest := pipe ts (some v) e.state
      ⟨rest.result, rest.state, e.calls ++ rest.calls⟩
    | .failure error => ⟨.error ⟨t, error⟩, e.state, e.calls⟩
    | .panic message => ⟨.error ⟨t, panicked message⟩, e.state, e.calls⟩

/-! ## Templates -/

/-- What comes of a part of a template: what ended it if something did, the state of the data, the
calls that the data got, and the text written. -/
structure Meaning (σ : Type) where
  stop : Option Stop
  state : σ
  calls : Calls
  output : String

/-- One part and then another, unless the first one was the end. -/
def Meaning.andThen (m : Meaning σ) (next : σ → Meaning σ) : Meaning σ :=
  match m.stop with
  | some _ => m
  | none =>
    let rest := next m.state
    ⟨rest.stop, rest.state, m.calls ++ rest.calls, m.output ++ rest.output⟩

/-- The string form of a result, if there is one. -/
def form : Option Value → String
  | none => ""
  | some v => v.text

/-- A child of the root. -/
def item (n : Node) (s : σ) : Meaning σ :=
  if n.kind = .text then ⟨none, s, [], n.value⟩
  else
    let e := pipe data (termsOf n.children) none s
    match e.result with
    | .ok v => ⟨none, e.state, e.calls, form v⟩
    | .error stop => ⟨some stop, e.state, e.calls, ""⟩

/-- The children of the root, one after the other. -/
def meaning : List Node → σ → Meaning σ
  | [], s => ⟨none, s, [], ""⟩
  | n :: ns, s => (item data n s).andThen (meaning ns)

theorem Meaning.andThen_assoc (m : Meaning σ) (f g : σ → Meaning σ) :
    (m.andThen f).andThen g = m.andThen fun s => (f s).andThen g := by
  obtain ⟨_ | stop, s, calls, output⟩ := m
  · simp only [andThen]
    generalize f s = rest
    obtain ⟨_ | stop, s', calls', output'⟩ := rest
    · simp only [List.append_assoc, String.append_assoc]
    · rfl
  · rfl

/-- What is behind a part of a template starts where that part ends. -/
theorem meaning_append (ms ns : List Node) (s : σ) :
    meaning data (ms ++ ns) s = (meaning data ms s).andThen (meaning data ns) := by
  induction ms generalizing s with
  | nil => simp [meaning, Meaning.andThen]
  | cons m ms ih =>
    have hms : meaning data (ms ++ ns) = fun s => (meaning data ms s).andThen (meaning data ns) :=
      funext ih
    rw [List.cons_append, meaning, meaning, hms, Meaning.andThen_assoc]

/-! ## The walk -/

variable {data}

theorem fieldName_eq_bare (value : String) : fieldName value = bare value := by
  unfold fieldName bare
  split
  · rename_i name hvalue
    simp [hvalue, List.dropPrefix?]
  · rename_i hvalue
    cases hcs : value.toList with
    | nil => simp [List.dropPrefix?, ← hcs]
    | cons c cs =>
      have hc : c ≠ '.' := by
        rintro rfl
        exact hvalue cs hcs
      simp [List.dropPrefix?, hc, ← hcs]

theorem contains_helpers (name : String) :
    (Methods.helpers (σ := σ)).contains name = decide (name = htmlHelper) := has_helpers name

theorem help_html (arg : Option Value) (s : σ) :
    help htmlHelper arg s = ⟨(Methods.html.call arg s).1, (Methods.html.call arg s).2, []⟩ := by
  have hget := get?_helpers (σ := σ) htmlHelper
  rw [if_pos rfl] at hget
  simp only [help, Methods.members, hget]

/-- A term is called as the walk calls it. -/
theorem invoke_recorded (t : Node) (arg : Option Value) (s : σ) (log : Calls) :
    invoke data.recorded t arg (s, log) =
      ((call data t arg s).result, (call data t arg s).state,
        log ++ (call data t arg s).calls) := by
  obtain ⟨kind, value, children⟩ := t
  by_cases hk : kind = .field
  · subst hk
    simp only [invoke, call, if_true, fieldName_eq_bare]
    rfl
  · have hinvoke : invoke data.recorded ⟨kind, value, children⟩ =
        data.recorded.withHelpers.invoke value := by
      cases kind <;> first | rfl | exact absurd rfl hk
    have hcall : call data ⟨kind, value, children⟩ =
        if (Methods.helpers (σ := σ)).contains value then help value else ask data value :=
      if_neg hk
    rw [hinvoke, hcall]
    by_cases hv : value = htmlHelper
    · subst hv
      rw [invoke_html, contains_helpers, decide_eq_true rfl, if_pos rfl, help_html,
        List.append_nil]
      cases arg with
      | none => rfl
      | some v => rfl
    · rw [invoke_of_ne _ hv, contains_helpers, decide_eq_false hv]
      rfl

/-- The error of a term, in front of the one of its member. -/
def Stop.inTerm (stop : Stop) : Error := stop.error.within (termFailure stop.term)

theorem runFrom_terms (terms : List Node) (arg : Option Value) (s : σ) (log : Calls)
    (out : String) :
    let e := pipe data terms arg s
    runFrom (terms.forM (evaluate data.recorded)) ⟨arg, (s, log), out⟩ =
      match e.result with
      | .ok v => (.ok (), ⟨v, (e.state, log ++ e.calls), out⟩)
      | .error stop => (.error stop.inTerm, ⟨none, (e.state, log ++ e.calls), out⟩) := by
  induction terms generalizing arg s log with
  | nil => simp [pipe, runFrom_pure]
  | cons t ts ih =>
    have hforM : ((t :: ts).forM (evaluate data.recorded) :
          Execution (σ × Calls) String Unit) =
        (evaluate data.recorded t >>= fun _ => ts.forM (evaluate data.recorded)) := rfl
    simp only [pipe, hforM, runFrom_bind, runFrom_evaluate, invoke_recorded]
    cases (call data t arg s).result with
    | value v => simp only [Outcome.toExcept, ih, List.append_assoc]
    | failure error => rfl
    | panic message => rfl

/-- Whatever frame it starts in, a part of the walk does what is said. -/
def Does (x : Execution (σ × Calls) String Unit) (m : σ → Meaning σ) : Prop :=
  ∀ r s log out, ∃ r', runFrom x ⟨r, (s, log), out⟩ =
    (answer ((m s).stop.map Stop.inTerm),
      ⟨r', ((m s).state, log ++ (m s).calls), out ++ (m s).output⟩)

theorem does_pure : Does (pure ()) fun s : σ => ⟨none, s, [], ""⟩ := by
  intro r s log out
  exact ⟨r, by simp [runFrom_pure, answer]⟩

theorem Does.seq {x y : Execution (σ × Calls) String Unit} {m k : σ → Meaning σ} (hx : Does x m)
    (hy : Does y k) : Does (x >>= fun _ => y) fun s => (m s).andThen k := by
  intro r s log out
  obtain ⟨r', hx⟩ := hx r s log out
  rw [runFrom_bind, hx]
  dsimp only
  generalize m s = first
  obtain ⟨_ | stop, s', calls, output⟩ := first
  · obtain ⟨r'', hy⟩ := hy r' s' (log ++ calls) (out ++ output)
    exact ⟨r'', by simpa [answer, Meaning.andThen, String.append_assoc] using hy⟩
  · exact ⟨r', rfl⟩

theorem does_text (value : String) :
    Does ((Node.text value).walk (visit data.recorded .text)) (item data (.text value)) := by
  intro r s log out
  rw [walk_text, runFrom_output]
  exact ⟨r, by simp [item, Node.text, Sink.text, answer]⟩

theorem does_action {commands : List Node} (h : ∀ c ∈ commands, IsCommand c) :
    Does ((Node.action commands).walk (visit data.recorded .text))
      (item data (.action commands)) := by
  intro r s log out
  have hitem : item data (.action commands) s =
      match (pipe data (termsOf commands) none s).result with
      | .ok v => ⟨none, (pipe data (termsOf commands) none s).state,
          (pipe data (termsOf commands) none s).calls, form v⟩
      | .error stop => ⟨some stop, (pipe data (termsOf commands) none s).state,
          (pipe data (termsOf commands) none s).calls, ""⟩ := rfl
  rw [walk_action _ _ h, hitem]
  simp only [runFrom_bind, runFrom_setRegister, runFrom_terms]
  cases (pipe data (termsOf commands) none s).result with
  | error stop => exact ⟨none, by simp [answer]⟩
  | ok v =>
    refine ⟨none, ?_⟩
    cases v with
    | none => simp [runFrom_writeRegister, answer, form]
    | some v => simp [runFrom_writeRegister, answer, form, text_writeValue]

theorem does_item {n : Node} (h : IsItem n) :
    Does (n.walk (visit data.recorded .text)) (item data n) := by
  cases h with
  | text value => exact does_text value
  | action _ hcommands => exact does_action hcommands

theorem does_items {ns : List Node} (h : ∀ n ∈ ns, IsItem n) :
    Does (Node.walkAll (visit data.recorded .text) ns) (meaning data ns) := by
  induction ns with
  | nil => exact does_pure
  | cons n ns ih =>
    obtain ⟨hn, hns⟩ := List.forall_mem_cons.1 h
    exact (does_item hn).seq (ih hns)

theorem does_walk {ns : List Node} (h : ∀ n ∈ ns, IsItem n) :
    Does (walk data.recorded .text (.root ns)) (meaning data ns) := by
  have hroot : (Node.root ns).walk (visit data.recorded .text) =
      Node.walkAll (visit data.recorded Sink.text) ns := by
    show (do pure (); Node.walkAll (visit data.recorded Sink.text) ns; pure ()) = _
    simp
  intro r s log out
  obtain ⟨r', hitems⟩ := does_items h r s log out
  refine ⟨r', ?_⟩
  rw [walk, hroot, runFrom_bind, runFrom_output]
  exact hitems

/-! ## Documents -/

/-- The error of a template that a term ended: that of the template, that of the term, and that of
the member. -/
def Stop.chain (name : String) (stop : Stop) : Error :=
  ⟨⟨.other, "failed to execute template", [(some "template", name)]⟩,
    ⟨.other, "failed to evaluate term", [(some "term", stop.term.value)]⟩ :: stop.error.faults⟩

section

variable (data) {d : Document} {ns : List Node}

theorem execute_recorded_eq (hroot : d.root = .root ns) (h : ∀ n ∈ ns, IsItem n) (name : String)
    (s : σ) (log : Calls) (out : String) :
    d.execute name .text data.recorded (s, log) out =
      ⟨(meaning data ns s).stop.map (Stop.chain name),
        ((meaning data ns s).state, log ++ (meaning data ns s).calls),
        out ++ (meaning data ns s).output⟩ := by
  obtain ⟨r', hwalk⟩ := does_walk h none s log out
  unfold runFrom at hwalk
  rw [Document.execute, hroot, hwalk]
  cases (meaning data ns s).stop with
  | none => rfl
  | some stop => rfl

theorem execute_eq (hroot : d.root = .root ns) (h : ∀ n ∈ ns, IsItem n) (name : String) (s : σ)
    (out : String) :
    d.execute name .text data s out =
      ⟨(meaning data ns s).stop.map (Stop.chain name), (meaning data ns s).state,
        out ++ (meaning data ns s).output⟩ := by
  obtain ⟨herror, hdata, hsink⟩ := execute_recorded d name .text data s out []
  rw [execute_recorded_eq data hroot h] at herror hdata hsink
  generalize d.execute name .text data s out = run at herror hdata hsink
  obtain ⟨error, state, sink⟩ := run
  cases herror
  cases hdata
  cases hsink
  rfl

end

/-- **Pipelines.** The execution of a template into text does what the template means: it ends with
the error of the term that ends the template, if there is one, leaves the data in that state with
those calls made on it, and has written that text behind what was there. -/
theorem execute_eq_meaning {σ : Type} {d : Document} {ns : List Node} (hroot : d.root = .root ns)
    (h : ∀ n ∈ ns, IsItem n) (name : String) (data : Members σ) (state : σ) (out : String) :
    let m := meaning data ns state
    d.execute name .text data state out = ⟨m.stop.map (Stop.chain name), m.state, out ++ m.output⟩ ∧
      d.calls name .text data state out = m.calls := by
  refine ⟨execute_eq data hroot h name state out, ?_⟩
  rw [Document.calls, execute_recorded_eq data hroot h, List.nil_append]

/-- Data that counts the calls it gets, and panics if it is not asked for `A`. -/
def counting : Members Nat where
  has _ := true
  invoke name _ n :=
    if name = "A" then (.value (.string "<"), n + 1) else (.panic (some "kaboom"), n + 1)

/-- The third term of an action panics, in the middle of a template: the data has got two calls, and
the text before the action is written. -/
theorem execute_counting :
    let d := Document.new "t" (.root [.text "a", .action [.command [.field ".A"],
      .command [.identifier "html", .identifier "B"]], .text "b"])
    d.execute "run" .text counting 0 "" =
        ⟨some ⟨⟨.other, "failed to execute template", [(some "template", "run")]⟩,
            [⟨.other, "failed to evaluate term", [(some "term", "B")]⟩,
              ⟨.panic, "member panicked", [(some "message", "kaboom")]⟩]⟩, 2, "a"⟩ ∧
      d.calls "run" .text counting 0 "" = [("A", none), ("B", some (.string "&lt;"))] := by
  have hitems : ∀ n ∈ [Node.text "a", .action [.command [.field ".A"],
      .command [.identifier "html", .identifier "B"]], .text "b"], IsItem n := by
    have hfirst : IsCommand (.command [.field ".A"]) :=
      .mk (by simp) (by simpa using IsTerm.field ".A")
    have hsecond : IsCommand (.command [.identifier "html", .identifier "B"]) :=
      .mk (by simp) (by simpa using ⟨IsTerm.identifier "html", IsTerm.identifier "B"⟩)
    simpa using ⟨.text "a", .action (by simp) (by simpa using ⟨hfirst, hsecond⟩), .text "b"⟩
  have h := execute_eq_meaning (d := .new "t" _) rfl hitems "run" counting 0 ""
  have hmeaning : meaning counting [Node.text "a", .action [.command [.field ".A"],
      .command [.identifier "html", .identifier "B"]], .text "b"] 0 =
        ⟨some ⟨.identifier "B", panicked (some "kaboom")⟩, 2,
          [("A", none), ("B", some (.string "&lt;"))], "a"⟩ := rfl
  rw [hmeaning] at h
  exact h

end Pipeline

end Stencil
