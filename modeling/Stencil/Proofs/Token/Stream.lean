import Stencil.Proofs.Token.Requests

/-!
# The whole stream of a lexer

What comes of all requests to a lexer, one after the other. A request is a loop: the machine takes
steps until one fails or leaves a token in the slot. `Loop` is that loop without the bound on silent
steps under which the lexer runs it, and a `Course` follows the requests up to the last one that
gets something.

Results:
* `Course.streams`: the answers to all requests, in order.
* `Course.orderly`: each request comes to its answer in at most two steps, all of them allowed, and
  leaves the slot empty.
* `register?_eq`: a table is what comes of registering its handlers one by one.
-/

namespace Stencil

/-! ## Registering handlers -/

namespace Machine

variable {σ ρ τ : Type} [DecidableEq σ]

/-- Registers the handlers of a table for some states, unless one is registered twice. -/
def register? (table : σ → Handler σ ρ τ) : List σ → Machine σ ρ τ → Option (Machine σ ρ τ)
  | [], m => some m
  | s :: ss, m =>
    match m.add s (table s) with
    | (none, m) => register? table ss m
    | (some _, _) => none

theorem register?_partial (table : σ → Handler σ ρ τ) (state : σ) (raw : ρ) : ∀ ss : List σ,
    ∀ done : List σ, (done ++ ss).Nodup →
      register? table ss
          ⟨state, .ok raw, fun s => if s ∈ done then some (table s) else none, none⟩ =
        some ⟨state, .ok raw, fun s => if s ∈ done ++ ss then some (table s) else none, none⟩
  | [], done, _ => by simp [register?]
  | s :: ss, done, h => by
    have hs : s ∉ done := fun hd => (List.nodup_append.1 h).2.2 s hd s List.mem_cons_self rfl
    have ih := register?_partial table state raw ss (done ++ [s]) (by simpa using h)
    have hadd : (fun s' => if s' = s then some (table s)
        else if s' ∈ done then some (table s') else none) =
          fun s' => if s' ∈ done ++ [s] then some (table s') else none := by
      funext s'
      by_cases hs' : s' = s <;> simp [hs']
    rw [List.append_assoc, List.singleton_append] at ih
    simp only [register?, add, hs, if_false, Option.isSome_none, Bool.false_eq_true, hadd, ih]

/-- **Tables.** Handlers that are registered one by one, each for a state of its own, make a table
if no state is left out. -/
theorem register?_eq {ss : List σ} (hnodup : ss.Nodup) (hall : ∀ s, s ∈ ss) (state : σ) (raw : ρ)
    (table : σ → Handler σ ρ τ) :
    register? table ss (new state raw) = some (ofTable state raw table) := by
  have h := register?_partial table state raw ss [] hnodup
  simp only [List.nil_append, hall, if_true, List.not_mem_nil, if_false] at h
  exact h

end Machine

namespace Lexer

variable {σ κ : Type} [DecidableEq σ]

/-! ## Requests, step by step -/

/-- The loop of one request: the number of steps of the machine, the answer and the lexer behind it.
No step panics, and each is taken in a state and at a place where it is allowed. -/
inductive Loop (allowed : σ → Cursor → Prop) : Lexer σ κ → Nat → Pull σ κ → Lexer σ κ → Prop where
  | exhausted {l : Lexer σ κ} : l.finished = true → Loop allowed l 0 .exhausted l
  | failed {l : Lexer σ κ} {e : Error} {m : Machine σ Cursor (Token κ)} : l.finished = false →
    allowed l.machine.state l.cursor → l.machine.process = (.ok (some e), m) →
    Loop allowed l 1 (.failed e) { l with machine := m, finished := true }
  | token {l : Lexer σ κ} {t : Token κ} {m m' : Machine σ Cursor (Token κ)} : l.finished = false →
    allowed l.machine.state l.cursor → l.machine.process = (.ok none, m) → m.take = (some t, m') →
    Loop allowed l 1 (.token t) { l with machine := m', finished := m'.state = l.final }
  | silent {l l' : Lexer σ κ} {k : Nat} {r : Pull σ κ} {m m' : Machine σ Cursor (Token κ)} :
    l.finished = false → allowed l.machine.state l.cursor → l.machine.process = (.ok none, m) →
    m.take = (none, m') → Loop allowed { l with machine := m' } k r l' →
    Loop allowed l (k + 1) r l'

/-- A handler that cuts bytes comes to a result, the one of the handler that cuts characters. -/
def Exact (table : σ → Machine.Handler σ Cursor (Token κ))
    (cuts : σ → Cursor → Option (Machine.Transition σ Cursor (Token κ))) (state : σ) (c : Cursor) :
    Prop :=
  cuts state c = some (table state (.ok c))

/-- The lexer answers a request as the loop does, in at most two steps, and the slot is empty. -/
structure Answers (allowed : σ → Cursor → Prop) (l : Lexer σ κ) (k : Nat) (r : Pull σ κ)
    (l' : Lexer σ κ) : Prop where
  loop : Loop allowed l k r l'
  next : l.next = (r, l')
  slot : l'.machine.slot = none

section

variable {table : σ → Machine.Handler σ Cursor (Token κ)} {final : σ} {rank : σ → Nat}
  {allowed : σ → Cursor → Prop} {state state' : σ} {c c' : Cursor}

theorem answers_emit {t : Token κ} (h : table state (.ok c) = ⟨[t], state', .ok c'⟩)
    (ha : allowed state c) : Answers allowed (stand table final rank state c) 1 (.token t)
      { stand table final rank state' c' with finished := state' = final } where
  loop := by
    refine Loop.token (m := ⟨state', .ok c', fun s => some (table s), some t⟩) rfl ha ?_ rfl
    simp only [stand, Machine.process, h]
    rfl
  next := next_emit h
  slot := rfl

/-- A token behind which the lexer goes on. -/
theorem answers_token {t : Token κ} (h : table state (.ok c) = ⟨[t], state', .ok c'⟩)
    (ha : allowed state c) (hfinal : state' ≠ final) :
    Answers allowed (stand table final rank state c) 1 (.token t)
      (stand table final rank state' c') := by
  have : Answers allowed (stand table final rank state c) 1 (.token t)
      { stand table final rank state' c' with finished := state' = final } := answers_emit h ha
  rwa [decide_eq_false hfinal] at this

theorem answers_fail {e : Error} (h : table state (.ok c) = ⟨[], state', .failed c' e⟩)
    (ha : allowed state c) : Answers allowed (stand table final rank state c) 1 (.failed e)
      ⟨⟨state', .failed c' e, fun s => some (table s), none⟩, final, rank, true⟩ where
  loop := by
    refine Loop.failed rfl ha ?_
    simp only [stand, Machine.process, h]
    rfl
  next := next_fail h
  slot := rfl

theorem answers_silent {k : Nat} {r : Pull σ κ} {l' : Lexer σ κ}
    (h : table state (.ok c) = ⟨[], state', .ok c'⟩) (hr : rank state' < rank state)
    (ha : allowed state c) (hnext : Answers allowed (stand table final rank state' c') k r l') :
    Answers allowed (stand table final rank state c) (k + 1) r l' where
  loop := by
    refine Loop.silent (m := (stand table final rank state' c').machine) rfl ha ?_ rfl hnext.loop
    simp only [stand, Machine.process, h]
    rfl
  next := (next_silent h hr).trans hnext.next
  slot := hnext.slot

end

/-! ## All requests -/

/-- Each request to a lexer comes to its answer by few steps of the machine, all allowed. -/
structure Orderly (allowed : σ → Cursor → Prop) (l : Lexer σ κ) : Prop where
  loop : ∀ n, ∃ k ≤ 2, Loop allowed (l.after n) k (l.after n).next.1 (l.after (n + 1))
  slot : ∀ n, (l.after n).machine.slot = none

/-- The answers to all requests: tokens, one more answer, and then none. -/
def Streams (l : Lexer σ κ) (ts : List (Token κ)) (last : Pull σ κ) : Prop :=
  ∀ n, (l.after n).next.1 = ((ts.map Pull.token ++ [last])[n]?).getD .exhausted

/-- Requests up to the last one that gets something. -/
inductive Course (allowed : σ → Cursor → Prop) : Lexer σ κ → List (Token κ) → Pull σ κ → Prop where
  | last {l l' : Lexer σ κ} {k : Nat} {r : Pull σ κ} : k ≤ 2 → Answers allowed l k r l' →
    l'.finished = true → Course allowed l [] r
  | token {l l' : Lexer σ κ} {k : Nat} {t : Token κ} {ts : List (Token κ)} {r : Pull σ κ} :
    k ≤ 2 → Answers allowed l k (.token t) l' → Course allowed l' ts r →
    Course allowed l (t :: ts) r

theorem next_of_finished {l : Lexer σ κ} (h : l.finished = true) : l.next = (.exhausted, l) := by
  rw [Lexer.next, if_pos h]

theorem after_succ : ∀ (l : Lexer σ κ) (n : Nat), l.after (n + 1) = (l.after n).next.2
  | _, 0 => rfl
  | l, n + 1 => after_succ l.next.2 n

theorem after_of_finished {l : Lexer σ κ} (h : l.finished = true) : ∀ n, l.after n = l
  | 0 => rfl
  | n + 1 => by rw [after, next_of_finished h, after_of_finished h n]

variable {allowed : σ → Cursor → Prop} {l : Lexer σ κ} {ts : List (Token κ)} {last : Pull σ κ}

theorem Course.streams (h : Course allowed l ts last) : l.Streams ts last := by
  intro n
  induction h generalizing n with
  | last _ hr hfin =>
    cases n with
    | zero => rw [after, hr.next]; rfl
    | succ n => rw [after, hr.next, after_of_finished hfin, next_of_finished hfin]; simp
  | token _ hr _ ih =>
    cases n with
    | zero => rw [after, hr.next]; rfl
    | succ n => rw [after, hr.next, ih]; simp

theorem Course.orderly (h : Course allowed l ts last) (hslot : l.machine.slot = none) :
    l.Orderly allowed := by
  have hall : ∀ n, (∃ k ≤ 2, Loop allowed (l.after n) k (l.after n).next.1 (l.after n).next.2) ∧
      (l.after n).machine.slot = none := by
    intro n
    induction h generalizing n with
    | @last l l' k r hk hr hfin =>
      cases n with
      | zero => exact ⟨⟨k, hk, by simpa [after, hr.next] using hr.loop⟩, hslot⟩
      | succ n =>
        rw [after, hr.next, after_of_finished hfin, next_of_finished hfin]
        exact ⟨⟨0, by omega, .exhausted hfin⟩, hr.slot⟩
    | @token l l' k t ts r hk hr _ ih =>
      cases n with
      | zero => exact ⟨⟨k, hk, by simpa [after, hr.next] using hr.loop⟩, hslot⟩
      | succ n =>
        rw [after, hr.next]
        exact ih hr.slot n
  exact ⟨fun n => after_succ l n ▸ (hall n).1, fun n => (hall n).2⟩

end Lexer

end Stencil
