import Stencil.Token.Lexer

/-!
# Requests to a lexer

What the lexer of a table does when it is asked for a token, by what the handler of its state does:
a handler that emits answers the request, one that fails ends it, and a silent one leaves it to the
next state.
-/

namespace Stencil.Lexer

variable {σ κ : Type} [DecidableEq σ] (table : σ → Machine.Handler σ Cursor (Token κ)) (final : σ)
  (rank : σ → Nat)

/-- The lexer of a table in a state, at a place of its source. -/
def stand (state : σ) (c : Cursor) : Lexer σ κ :=
  ⟨⟨state, .ok c, fun s => some (table s), none⟩, final, rank, false⟩

variable {table final rank}

theorem next_emit {state state' : σ} {c c' : Cursor} {t : Token κ}
    (h : table state (.ok c) = ⟨[t], state', .ok c'⟩) :
    (stand table final rank state c).next =
      (.token t, { stand table final rank state' c' with finished := state' = final }) := by
  rw [Lexer.next]
  simp only [stand, Machine.process, h]
  rfl

theorem next_silent {state state' : σ} {c c' : Cursor}
    (h : table state (.ok c) = ⟨[], state', .ok c'⟩) (hr : rank state' < rank state) :
    (stand table final rank state c).next = (stand table final rank state' c').next := by
  have hp : (stand table final rank state c).machine.process =
      (.ok none, (stand table final rank state' c').machine) := by
    simp only [stand, Machine.process, h]
    rfl
  rw [Lexer.next, hp]
  simp only [stand, Machine.take, hr, if_true]
  rfl

theorem next_fail {state state' : σ} {c c' : Cursor} {e : Error}
    (h : table state (.ok c) = ⟨[], state', .failed c' e⟩) :
    (stand table final rank state c).next =
      (.failed e, ⟨⟨state', .failed c' e, fun s => some (table s), none⟩, final, rank, true⟩) := by
  rw [Lexer.next]
  simp only [stand, Machine.process, h]
  rfl

/-- At two places from which the handler does the same, the answers are the same. -/
theorem next_congr {state : σ} {c c' : Cursor} (h : table state (.ok c) = table state (.ok c'))
    (hone : (table state (.ok c)).emitted.length ≤ 1) :
    (stand table final rank state c).next = (stand table final rank state c').next := by
  rw [Lexer.next, Lexer.next]
  simp only [stand, Machine.process, h]
  rw [h] at hone
  generalize table state (.ok c') = t at hone
  obtain ⟨emitted, state', data⟩ := t
  rcases emitted with _ | ⟨t, _ | ⟨u, ts⟩⟩
  · rfl
  · rfl
  · simp at hone

/-- A lexer that is finished has no items left. -/
theorem itemsWithin_of_finished {l : Lexer σ κ} (h : l.finished = true) (n : Nat) :
    itemsWithin n l = [] := by
  cases n with
  | zero => rfl
  | succ n =>
    have hnext : l.next = (.exhausted, l) := by rw [Lexer.next, if_pos h]
    rw [itemsWithin, hnext]

end Stencil.Lexer
