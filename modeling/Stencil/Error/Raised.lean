import Stencil.Error

/-!
# Errors as they are raised

An error is raised with a detail, which comes from here or from elsewhere. All that is ever asked of
a detail is its kind, its message, the message as a report has it, which may be laid out at more
length, and its context. `Raised` is an error with its detail, in front of the error behind it if
there is one. What can be seen of it is an `Error`.

A clone does not keep the details. It asks each one for its kind, message and context, and is made
of the faults that tell the same.
-/

namespace Stencil

structure Detail where
  kind : ErrorKind
  message : String
  /-- The message as a report has it. -/
  reported : String
  context : List (Option String × String)
deriving Repr, DecidableEq

namespace Detail

/-- A fault has one message for all uses. -/
def ofFault (f : Fault) : Detail := ⟨f.kind, f.message, f.message, f.context⟩

/-- A text on its own. -/
def ofText (text : String) : Detail := ofFault ⟨.other, text, []⟩

/-- An error from elsewhere, whose causes become bare context. -/
def ofForeign (kind : ErrorKind) (message reported : String) (causes : List String) : Detail :=
  ⟨kind, message, reported, causes.map fun cause => (none, cause)⟩

/-- What a report shows. -/
def seen (d : Detail) : Fault := ⟨d.kind, d.reported, d.context⟩

/-- What a clone is made of. -/
def told (d : Detail) : Fault := ⟨d.kind, d.message, d.context⟩

/-- The message is the same in a report. -/
def Plain (d : Detail) : Prop := d.reported = d.message

instance (d : Detail) : Decidable d.Plain := inferInstanceAs (Decidable (_ = _))

end Detail

inductive Raised where
  | last (detail : Detail)
  | around (detail : Detail) (previous : Raised)
deriving Repr, DecidableEq

namespace Raised

/-- An error with a fault of its own. -/
def ofFault (f : Fault) : Raised := last (.ofFault f)

/-- All details, outermost first. -/
def details : Raised → List Detail
  | last d => [d]
  | around d previous => d :: previous.details

/-- What can be seen of the error. -/
def error : Raised → Error
  | last d => ⟨d.seen, []⟩
  | around d previous => ⟨d.seen, previous.error.faults⟩

def kind (r : Raised) : ErrorKind := r.error.kind

def report (r : Raised) : String := r.error.report

/-- The error `outer` with `r` behind its deepest error. -/
def chain (r : Raised) : Raised → Raised
  | last d => around d r
  | around d previous => around d (r.chain previous)

def clone : Raised → Raised
  | last d => last (.ofFault d.told)
  | around d previous => around (.ofFault d.told) previous.clone

/-- Messages are the same in a report. -/
def Plain (r : Raised) : Prop := ∀ d ∈ r.details, d.Plain

instance (r : Raised) : Decidable r.Plain := inferInstanceAs (Decidable (∀ d ∈ r.details, _))

end Raised

end Stencil
