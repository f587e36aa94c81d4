/-!
# Errors and their reports

A `Fault` is one thing that went wrong: its kind, a message and context entries, each a value with
or without a key. An `Error` is the outermost fault and the faults behind it, in the order in which
they are reported. `e.within outer` reports `outer` with `e` behind the deepest fault of `outer`.

A report indents each fault by four columns more than the one before it, and puts a fault's context
below the faults behind it. A line end inside a message or a value is followed by the indentation.
Where in the program a fault was raised is not told.
-/

namespace Stencil

/-- The broad class of a fault. -/
inductive ErrorKind where
  /-- Template text that is no token inside an action, or an action that is not closed. -/
  | lex
  /-- A token where the grammar has none. -/
  | parse
  /-- No escaping applies where an action writes its value. -/
  | escape
  /-- A name that no member has. -/
  | notFound
  /-- A member that was given an argument it does not take, or not given the one it needs. -/
  | arity
  /-- An argument of the wrong type. -/
  | type
  /-- A member that panicked. -/
  | panic
  | io
  | other
deriving Repr, DecidableEq

namespace ErrorKind

def all : List ErrorKind := [lex, parse, escape, notFound, arity, type, panic, io, other]

def name : ErrorKind → String
  | lex => "lex error"
  | parse => "parse error"
  | escape => "escape error"
  | notFound => "lookup error"
  | arity => "arity error"
  | type => "type error"
  | panic => "panic"
  | io => "i/o error"
  | other => "error"

end ErrorKind

structure Fault where
  kind : ErrorKind
  message : String
  context : List (Option String × String)
deriving Repr, DecidableEq

structure Error where
  /-- The outermost fault. -/
  fault : Fault
  /-- The faults behind it, outermost first. -/
  behind : List Fault
deriving Repr, DecidableEq

namespace Error

/-- A fault of its own. `entries` are its context, each with a key. -/
def make (kind : ErrorKind) (message : String) (entries : List (String × String)) : Error :=
  ⟨⟨kind, message, entries.map fun (key, value) => (some key, value)⟩, []⟩

/-- A message and the messages of its causes, which become bare context. -/
def ofMessages (kind : ErrorKind) (message : String) (causes : List String) : Error :=
  ⟨⟨kind, message, causes.map fun cause => (none, cause)⟩, []⟩

/-- All faults, outermost first. -/
def faults (e : Error) : List Fault := e.fault :: e.behind

/-- The outermost kind that says more than `other`. -/
def kind (e : Error) : ErrorKind :=
  ((e.faults.map Fault.kind).find? (· ≠ .other)).getD .other

/-- The error `outer` with `e` behind its deepest fault (`chain`). -/
def within (e outer : Error) : Error := ⟨outer.fault, outer.behind ++ e.faults⟩

@[simp] theorem faults_within (e outer : Error) :
    (e.within outer).faults = outer.faults ++ e.faults := rfl

/-! ## Reports -/

def indentation (depth : Nat) : List Char := List.replicate (4 * depth) ' '

/-- The text `cs` with the indentation behind each line end. -/
def hang (depth : Nat) (cs : List Char) : List Char :=
  cs.flatMap fun c => if c = '\n' then '\n' :: indentation depth else [c]

def contextLine (depth : Nat) : Option String × String → List Char
  | (none, value) => indentation depth ++ hang depth value.toList ++ ['\n']
  | (some key, value) =>
    indentation depth ++ key.toList ++ [':', ' '] ++ hang depth value.toList ++ ['\n']

/-- The lines of faults of which the first is `depth` steps in. -/
def reportFrom (depth : Nat) : List Fault → List Char
  | [] => []
  | f :: behind =>
    indentation depth ++ hang depth f.message.toList ++ ['\n'] ++ reportFrom (depth + 1) behind ++
      f.context.flatMap (contextLine depth)

def report (e : Error) : String := String.ofList (reportFrom 0 e.faults)

end Error

end Stencil

/-- The result of `x`, with `outer` around its error. -/
def Except.within {α : Type} (x : Except Stencil.Error α) (outer : Stencil.Error) :
    Except Stencil.Error α :=
  x.mapError (·.within outer)
