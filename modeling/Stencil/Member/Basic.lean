import Stencil.Member.Parameter
import Stencil.Text.Reference
import Stencil.Value.Text

/-!
# Members

A template calls the members of a data object by name, with the value of the pipeline if there is
one. `Members` is such an object: which names it has, and what a call does. Calls may change a state
of type `σ`, which belongs to the object, and they may fail or panic.

Dictionaries are members that take no argument, `Methods` are functions by name, and `orElse` puts
one object in front of another. Helpers are functions that every template can call by a bare name,
whatever its data is. They come before members of the data of the same name, which can only be
reached as fields.
-/

namespace Stencil

/-- What becomes of a call. -/
inductive Outcome where
  | value (v : Value)
  | failure (e : Error)
  /-- A panic, with its message if it has one. -/
  | panic (message : Option String)

structure Members (σ : Type) where
  has : String → Bool
  /-- Calls a member by its name, with or without an argument. -/
  invoke : String → Option Value → σ → Outcome × σ

namespace Members

variable {σ : Type}

def notFound (name : String) : Error := .make .notFound "no such member" [("member", name)]

/-- The entries of a dictionary, which take no argument. -/
def ofDict (d : Dict Value) : Members σ where
  has := d.contains
  invoke name arg s :=
    match d.get? name, arg with
    | none, _ => (.failure (notFound name), s)
    | some _, some arg =>
      (.failure (.make .arity "dictionary member takes no arguments"
        [("member", name), ("argument", arg.kind)]), s)
    | some v, none => (.value v, s)

/-- The entries of a value, if it is a dictionary. Other values have no members. -/
def ofValue (v : Value) : Members σ :=
  match v with
  | .dict entries => ofDict entries
  | v =>
    { has := fun _ => false
      invoke := fun name _ s =>
        (.failure (.make .notFound "value has no members"
          [("member", name), ("value", v.kind)]), s) }

/-- The members of `a`, and those of `b` that `a` does not have. -/
def orElse (a b : Members σ) : Members σ where
  has name := a.has name || b.has name
  invoke name arg := if a.has name then a.invoke name arg else b.invoke name arg

end Members

/-- A function that a template can call. -/
inductive Function (σ : Type) where
  | nullary (run : σ → Outcome × σ)
  | unary (t : ParamType) (run : t.Carrier → σ → Outcome × σ)

/-- Calls a function. One without a parameter refuses an argument. -/
def Function.call {σ : Type} : Function σ → Option Value → σ → Outcome × σ
  | nullary run, none, s => run s
  | nullary _, some arg, s =>
    (.failure (.make .arity "member takes no arguments" [("argument", arg.kind)]), s)
  | unary t run, arg, s =>
    match t.convert arg with
    | .ok a => run a s
    | .error e => (.failure e, s)

/-- Functions by name. -/
structure Methods (σ : Type) where
  functions : Dict (Function σ)

namespace Methods

variable {σ : Type}

def empty : Methods σ := ⟨[]⟩

/-- Registers a function, in the place of one that has the name already. -/
def register (m : Methods σ) (name : String) (f : Function σ) : Methods σ :=
  ⟨m.functions.insert name f⟩

def contains (m : Methods σ) (name : String) : Bool := m.functions.contains name

/-- The names, in order. -/
def names (m : Methods σ) : List String := m.functions.keys

/-- The names, as a diagnostic shows them. -/
def describe (m : Methods σ) : String :=
  "Methods \x7b members: [" ++ ", ".intercalate (m.names.map Text.quoted) ++ "] \x7d"

def members (m : Methods σ) : Members σ where
  has := m.contains
  invoke name arg s :=
    match m.functions.get? name with
    | some f => f.call arg s
    | none => (.failure (Members.notFound name), s)

end Methods

/-! ## Helpers -/

/-- The name of the helper that writes special characters as references. -/
def htmlHelper : String := "html"

namespace Methods

variable {σ : Type}

/-- The string form of a value with its special characters as references. -/
def html : Function σ :=
  .unary (.base .value) fun (v : Value) s => (.value (.string (Text.escapeHtml v.text)), s)

def helpers : Methods σ := empty.register htmlHelper html

end Methods

/-- The helpers, and the members of the data that none of them hides: what an identifier may name
(`Receiver`). -/
def Members.withHelpers {σ : Type} (data : Members σ) : Members σ :=
  Methods.helpers.members.orElse data

end Stencil
