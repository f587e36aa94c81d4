import Stencil.Proofs.Text.Positions
import Stencil.Proofs.Token.Tiling
import Stencil.Proofs.Tree.Reading

/-!
# Where errors are

A text that is no template has an error that tells a line and a column. They are those of the place
where the defect shows, and no other boundary between characters has them.

Results:
* `located_error`: an error at a cursor tells the place of the cursor.
* `located_failed`: the error of the lexer is where an action cannot go on.
* `located_ofText`: the error of a text is where its leftmost defect shows.
* `positions_determine`: positions determine offsets, those in errors among them.
-/

namespace Stencil

open Text (Position positionAt Boundary byteSize)

/-! ## Errors of the lexer -/

theorem Cursor.tells_error (c : Cursor) (message : String) :
    (c.error message).Tells (.after c.passed) := ⟨rfl, rfl⟩

theorem Cursor.located_error (c : Cursor) (message : String) :
    (c.error message).Located c.passed c.rest :=
  Error.located_of_tells (c.tells_error message) c.rest

namespace Action

/-- The last answer to the requests is the only one that may be an error. -/
theorem eq_last_of_streams {l : Lexer State Kind} {ts : List (Token Kind)} {last : Pull State Kind}
    {n : Nat} {e : Error} (h : l.Streams ts last) (hn : (l.after n).next.1 = .failed e) :
    last = .failed e := by
  rw [h n] at hn
  cases hget : (ts.map Pull.token ++ [last])[n]? with
  | none =>
    rw [hget] at hn
    contradiction
  | some answer =>
    rw [hget, Option.getD_some] at hn
    subst hn
    rcases List.mem_append.1 (List.mem_of_getElem? hget) with htoken | hlast
    · obtain ⟨t, -, ht⟩ := List.mem_map.1 htoken
      contradiction
    · exact (List.mem_singleton.1 hlast).symm

/-- **Errors of the lexer.** -/
theorem located_failed {text : String} {n : Nat} {e : Error}
    (h : ((actionLexer text).after n).next.1 = .failed e) :
    ∃ before next, text.toList = before ++ next ∧ Stuck next ∧ e.Located before next := by
  obtain ⟨ts, last, inside, c, hcourse, htiles, hends⟩ :=
    course_between (text.toList.length + 1) (c := .ofSource text.toList) .text
      (Nat.lt_succ_self _)
  obtain rfl := eq_last_of_streams hcourse.streams h
  have hsource : c.passed ++ c.rest = text.toList := (tiling_of_tiles htiles).source_eq
  cases hends with
  | failed hstops =>
    cases hstops with
    | @mk gap rest hrest hgap hstuck =>
      refine ⟨c.passed ++ gap, rest, ?_, hstuck, Cursor.located_error ⟨_, rest⟩ _⟩
      rw [← hsource, hrest, List.append_assoc]

end Action

/-! ## Errors of the reader -/

namespace Grammar

/-- The error of a defect tells where the defect shows. -/
theorem Defect.tells_error (name : String) (before body next : List Char) (defect : Defect) :
    (defect.error name before body next).Tells (.after (before ++ opening ++ body)) := by
  cases defect <;> exact ⟨rfl, rfl⟩

/-- **Errors of the reader.** -/
theorem located_ofText {name text : String} {e : Error} (h : Document.ofText name text = .error e) :
    ∃ defect before body next, Leftmost text.toList defect before body next ∧
      text.toList = before ++ opening ++ body ++ next ∧
        e.Located (before ++ opening ++ body) next := by
  obtain ⟨defect, before, body, next, hl, rfl⟩ := leftmost_of_ofText h
  refine ⟨defect, before, body, next, hl, ?_,
    Error.located_of_tells (defect.tells_error name before body next) next⟩
  generalize text.toList = cs at hl
  cases hl with
  | mk => rfl

end Grammar

open Grammar (Leftmost opening)

/-- **Positions determine offsets.** Of two boundaries the later one has the later position: the
line is one more than the line ends before it, the column one more than the characters behind the
last of them. Offsets past the end have the position of the end. The error of the lexer tells the
position of one boundary, where an action cannot go on, and the error of the reader that of one
boundary, where the leftmost defect shows. -/
theorem positions_determine (text : String) :
    (∀ i j, Boundary text.toList i → Boundary text.toList j → i < j →
      positionAt text.toList i < positionAt text.toList j) ∧
    (∀ before after, text.toList = before ++ after →
      positionAt text.toList (byteSize before) =
        ⟨before.count '\n' + 1, (before.rtakeWhile (· ≠ '\n')).length + 1⟩) ∧
    (∀ i, text.utf8ByteSize ≤ i →
      positionAt text.toList i = positionAt text.toList text.utf8ByteSize) ∧
    (∀ n e, ((actionLexer text).after n).next.1 = .failed e → ∃ before next,
      text.toList = before ++ next ∧ Action.Stuck next ∧ e.Located before next) ∧
    ∀ name e, Document.ofText name text = .error e → ∃ defect before body next,
      Leftmost text.toList defect before body next ∧
        text.toList = before ++ opening ++ body ++ next ∧
          e.Located (before ++ opening ++ body) next := by
  refine ⟨fun i j => Text.positionAt_lt, fun before after h => ?_, fun i hi => ?_,
    fun n e => Action.located_failed, fun name e => Grammar.located_ofText⟩
  · rw [h, Text.positionAt_append, Position.after_eq]
  · rw [← Text.byteSize_toList] at hi ⊢
    exact Text.positionAt_of_le hi

/-- An action that is left open, behind a line end and a character of two bytes. -/
theorem positions_determine_unclosed :
    let text := "é\n\x7b\x7b.A"
    let e := Error.make .lex "unclosed action" [("line", "2"), ("column", "5"), ("near", "\"\"")]
    Boundary text.toList 3 ∧ Boundary text.toList 5 ∧
      positionAt text.toList 3 < positionAt text.toList 5 ∧
      positionAt text.toList 5 = ⟨2, 3⟩ ∧
      text.utf8ByteSize ≤ 10 ∧
      positionAt text.toList 10 = positionAt text.toList text.utf8ByteSize ∧
      ((actionLexer text).after 3).next.1 = .failed e ∧
      (∃ before next, text.toList = before ++ next ∧ Action.Stuck next ∧ e.Located before next) ∧
      Document.ofText "t" text = .error (e.within (Document.lexFailure "t")) ∧
      ∃ defect before body next, Leftmost text.toList defect before body next ∧
        text.toList = before ++ opening ++ body ++ next ∧
          (e.within (Document.lexFailure "t")).Located (before ++ opening ++ body) next := by
  intro text e
  have hthree : Boundary text.toList 3 := ⟨['é', '\n'], ['\x7b', '\x7b', '.', 'A'], by cbv, rfl⟩
  have hbehind : text.toList = ['é', '\n', '\x7b', '\x7b'] ++ ['.', 'A'] := by cbv
  have hfive : Boundary text.toList 5 := ⟨_, _, hbehind, rfl⟩
  have hsize : text.utf8ByteSize ≤ 10 := by decide
  have hlex : ((actionLexer text).after 3).next.1 = .failed e := by cbv
  have hread : Document.ofText "t" text = .error (e.within (Document.lexFailure "t")) := by cbv
  obtain ⟨hlt, hcount, hend, hfailed, hrefused⟩ := positions_determine text
  exact ⟨hthree, hfive, hlt 3 5 hthree hfive (by decide), hcount _ _ hbehind, hsize,
    hend 10 hsize, hlex, hfailed 3 e hlex, hread, hrefused "t" _ hread⟩

end Stencil
