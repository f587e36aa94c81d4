import Stencil.Execution.Sink
import Stencil.Member.Basic
import Stencil.Tree.Walk

/-!
# Execution

A template is executed by a walk over its tree. There is one register. An action starts with nothing
in it; each term of the action is called with what is in the register, and its result replaces that;
and when the action is left, the register is written. Texts are written when they are left.

The first failure ends the walk: a member that fails or panics, or a sink. What has been written
stays.
-/

namespace Stencil

/-- What an execution changes: the register, the state of the data and the state of the sink. -/
structure Frame (σ τ : Type) where
  register : Option Value
  data : σ
  sink : τ

/-- What an execution leaves behind. -/
structure Run (σ τ : Type) where
  error : Option Error
  data : σ
  sink : τ

abbrev Execution (σ τ : Type) := ExceptT Error (StateM (Frame σ τ))

/-- The value of a call, or its error. A panic is an error here. -/
def Outcome.toExcept : Outcome → Except Error Value
  | .value v => .ok v
  | .failure e => .error e
  | .panic message =>
    .error (.make .panic "member panicked" [("message", message.getD "<non-string payload>")])

namespace Execution

variable {σ τ : Type}

/-- Does something to the sink. -/
def output (f : τ → Option Error × τ) : Execution σ τ Unit := fun frame =>
  match f frame.sink with
  | (none, sink) => (.ok (), { frame with sink })
  | (some e, sink) => (.error e, { frame with sink })

def setRegister (register : Option Value) : Execution σ τ Unit :=
  modify fun frame => { frame with register }

/-- The name of a field without the dot before it. -/
def fieldName (value : String) : String :=
  match value.toList with
  | '.' :: name => String.ofList name
  | _ => value

/-- Calls the member that a term names. A field is a member of the data, and an identifier a helper
or else a member of the data. -/
def invoke (data : Members σ) (term : Node) : Option Value → σ → Outcome × σ :=
  match term.kind with
  | .field => data.invoke (fieldName term.value)
  | _ => data.withHelpers.invoke term.value

/-- The error of a term, in front of the one of its member. -/
def termFailure (term : Node) : Error :=
  .make .other "failed to evaluate term" [("term", term.value)]

/-- Replaces the register by the result of a term, called with the register (`call`). -/
def evaluate (data : Members σ) (term : Node) : Execution σ τ Unit := fun frame =>
  let (outcome, state) := invoke data term frame.register frame.data
  match outcome.toExcept with
  | .ok v => (.ok (), { frame with register := some v, data := state })
  | .error e =>
    (.error (e.within (termFailure term)), { frame with register := none, data := state })

/-- Writes the register, if there is anything in it, and empties it. -/
def writeRegister (sink : Sink τ) : Execution σ τ Unit := do
  let frame ← get
  setRegister none
  match frame.register with
  | some v => output (sink.writeValue v)
  | none => pure ()

/-- What is done when a node is entered and left (`enter`, `leave`). -/
def visit (data : Members σ) (sink : Sink τ) (moment : Moment) (n : Node) : Execution σ τ Unit :=
  match moment, n.kind with
  | .enter, .action => setRegister none
  | .enter, .field | .enter, .identifier => evaluate data n
  | .leave, .text => output (sink.write n.value)
  | .leave, .action => writeRegister sink
  | _, _ => pure ()

/-- Prepares the sink and walks over the tree. -/
def walk (data : Members σ) (sink : Sink τ) (root : Node) : Execution σ τ Unit := do
  output sink.prepare
  root.walk (visit data sink)

end Execution

/-- The error of an execution, in front of the one that ended it. -/
def Execution.failure (name : String) : Error :=
  .make .other "failed to execute template" [("template", name)]

/-- Executes a template under a name, which its errors tell. -/
def Document.execute {σ τ : Type} (d : Document) (name : String) (sink : Sink τ) (data : Members σ)
    (state : σ) (target : τ) : Run σ τ :=
  match (Execution.walk data sink d.root).run.run ⟨none, state, target⟩ with
  | (.ok (), frame) => ⟨none, frame.data, frame.sink⟩
  | (.error e, frame) => ⟨some (e.within (Execution.failure name)), frame.data, frame.sink⟩

end Stencil
