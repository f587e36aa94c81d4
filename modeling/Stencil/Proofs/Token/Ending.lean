import Stencil.Proofs.Markup.Lossless
import Stencil.Proofs.Token.Tiling

/-!
# How the streams of both lexers end

A stream of tokens ends in one of two ways: with the end of the source, or with an error. Both
lexers come to it whatever the source is, and no step on the way can go wrong: every state has a
handler, no handler fills the slot twice, and every cut is between characters.

Results:
* `streams_end`: the streams of both lexers. That of the markup lexer has no error.
-/

namespace Stencil

/-- Tokens that are not empty, behind which there is either the end or an error. -/
structure EndsOnce {σ κ : Type} (eof : κ) (ts : List (Token κ)) (last : Pull σ κ) : Prop where
  token : ∀ t ∈ ts, t.kind ≠ eof ∧ t.value ≠ ""
  last : (∃ offset, last = .token ⟨eof, "", offset⟩) ∨ ∃ e, last = .failed e

theorem ofList_ne_empty {cs : List Char} (h : cs ≠ []) : String.ofList cs ≠ "" := by
  intro he
  exact h (by simpa using congrArg String.toList he)

namespace Action

def states : List State := [.text, .leftDelim, .inside, .field, .identifier, .rightDelim, .eof]

theorem register?_handler (source : String) :
    Machine.register? handler states (.new .text (.ofSource source.toList)) =
      some (actionLexer source).machine :=
  Machine.register?_eq (by decide) (fun s => by cases s <;> decide) _ _ _

theorem endsOnce {c c' : Cursor} {ts : List (Token Kind)} {inside inside' : Bool}
    {last : Pull State Kind} (h : Tiles inside c ts inside' c') (hlast : Ends inside' c' last) :
    EndsOnce .eof ts last where
  token t ht := by
    obtain ⟨before, after, -, -, hword, -⟩ := h.stands t ht
    refine ⟨fun hk => ?_, fun hv => ?_⟩
    · rw [hk] at hword
      cases hword
    · rw [hv] at hword
      exact hword.ne_nil rfl
  last := by
    cases hlast with
    | eof => exact .inl ⟨_, rfl⟩
    | failed _ => exact .inr ⟨_, rfl⟩

end Action

namespace Markup

def states : List State := [.text, .startTag, .endTag, .comment, .eof]

theorem register?_handler (source : String) :
    Machine.register? handler states (.new .text (.ofSource source.toList)) =
      some (markupLexer source).machine :=
  Machine.register?_eq (by decide) (fun s => by cases s <;> decide) _ _ _

theorem Lexeme.kind_ne_eof {kind : Kind} {value rest : List Char} (h : Lexeme kind value rest) :
    kind ≠ .eof := by
  rintro rfl
  cases h with
  | closed hs => exact hs.elim
  | cut hs => exact hs.elim

theorem token_of_lexed {c : Cursor} {ts : List (Token Kind)} (h : Lexed c ts) :
    ∀ t ∈ ts, t.kind ≠ .eof ∧ t.value ≠ "" := by
  induction h with
  | nil => simp
  | cons hlexeme _ ih =>
    exact List.forall_mem_cons.2 ⟨⟨hlexeme.kind_ne_eof, ofList_ne_empty hlexeme.ne_nil⟩, ih⟩

end Markup

/-- **The ends of streams.** Registering their handlers one by one makes the machines of both
lexers. Each request to them is answered in at most two steps, none of which panics or cuts a
character in two, and leaves the slot empty. The answers are tokens that are not empty, then the end
or an error, of which the markup lexer has none, and then nothing. -/
theorem streams_end (source : String) :
    (Machine.register? Action.handler Action.states (.new .text (.ofSource source.toList)) =
        some (actionLexer source).machine ∧
      (actionLexer source).Orderly Action.Exact ∧
      ∃ ts last, (actionLexer source).Streams ts last ∧ EndsOnce .eof ts last) ∧
    Machine.register? Markup.handler Markup.states (.new .text (.ofSource source.toList)) =
        some (markupLexer source).machine ∧
      (markupLexer source).Orderly Markup.Exact ∧
      ∃ ts offset, (markupLexer source).Streams ts (.token ⟨.eof, "", offset⟩) ∧
        ∀ t ∈ ts, t.kind ≠ .eof ∧ t.value ≠ "" := by
  obtain ⟨ts, last, inside, c, hcourse, htiles, hends⟩ :=
    Action.course_between (source.toList.length + 1) (c := .ofSource source.toList) .text
      (Nat.lt_succ_self _)
  obtain ⟨us, hlexed, hcourse'⟩ :=
    Markup.course_meets (source.toList.length + 1) (c := .ofSource source.toList) (.inl rfl)
      (Nat.lt_succ_self _)
  exact ⟨⟨Action.register?_handler source, hcourse.orderly rfl, ts, last, hcourse.streams,
      Action.endsOnce htiles hends⟩,
    Markup.register?_handler source, hcourse'.orderly rfl, us, _, hcourse'.streams,
      Markup.token_of_lexed hlexed⟩

end Stencil
