import Stencil.Token.Cursor

/-!
# Pulling tokens from a step machine

A `Lexer` runs a machine over a cursor until a token is in the slot, and gives it out. It is
finished after an error, and after the token with which the machine reaches its final state.

A machine may take silent steps, which emit nothing. `rank` bounds how many: a silent step that does
not lower the rank of the state is not repeated, and the pull is `stalled`.
-/

namespace Stencil

structure Lexer (σ κ : Type) where
  machine : Machine σ Cursor (Token κ)
  final : σ
  rank : σ → Nat
  finished : Bool

/-- The answer to one request for a token. -/
inductive Pull (σ κ : Type) where
  | token (t : Token κ)
  | failed (e : Error)
  | exhausted
  | panicked (p : Machine.Panic σ)
  | stalled

namespace Lexer

variable {σ κ : Type}

/-- Starts at the beginning of `source`, with a handler for each state. -/
def ofTable (source : List Char) (table : σ → Machine.Handler σ Cursor (Token κ))
    (initial final : σ) (rank : σ → Nat) : Lexer σ κ :=
  ⟨.ofTable initial (.ofSource source) table, final, rank, false⟩

/-- The cursor of the machine. -/
def cursor (l : Lexer σ κ) : Cursor := l.machine.data.raw

/-- Asks for the next token. -/
def next [DecidableEq σ] (l : Lexer σ κ) : Pull σ κ × Lexer σ κ :=
  if l.finished then (.exhausted, l)
  else match l.machine.process with
    | (.error p, m) => (.panicked p, { l with machine := m })
    | (.ok (some e), m) => (.failed e, { l with machine := m, finished := true })
    | (.ok none, m) =>
      match m.take with
      | (some t, m) => (.token t, { l with machine := m, finished := m.state = l.final })
      | (none, m) =>
        if l.rank m.state < l.rank l.machine.state then next { l with machine := m }
        else (.stalled, { l with machine := m })
termination_by l.rank l.machine.state

/-- The answers to `n` requests. -/
def pulls [DecidableEq σ] : Nat → Lexer σ κ → List (Pull σ κ)
  | 0, _ => []
  | n + 1, l => l.next.1 :: pulls n l.next.2

/-- The lexer after `n` requests. -/
def after [DecidableEq σ] : Nat → Lexer σ κ → Lexer σ κ
  | 0, l => l
  | n + 1, l => after n l.next.2

/-- Tokens and errors, in order, up to the first answer that is neither. -/
def itemsWithin [DecidableEq σ] : Nat → Lexer σ κ → List (Except Error (Token κ))
  | 0, _ => []
  | n + 1, l =>
    match l.next with
    | (.token t, l) => .ok t :: itemsWithin n l
    | (.failed e, l) => .error e :: itemsWithin n l
    | _ => []

/-- All that is left. A token takes at least one character, but for the last one. -/
def items [DecidableEq σ] (l : Lexer σ κ) : List (Except Error (Token κ)) :=
  itemsWithin (l.cursor.rest.length + 2) l

/-- All tokens that are left, or the error. -/
def tokens [DecidableEq σ] (l : Lexer σ κ) : Except Error (List (Token κ)) := l.items.mapM id

end Lexer

end Stencil
