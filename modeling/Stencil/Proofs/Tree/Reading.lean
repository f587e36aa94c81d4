import Stencil.Proofs.Tree.Grammar
import Stencil.Proofs.Tree.Layout

/-!
# What is read from template text

The reader takes its tokens from the lexer one by one. Here both go through a text together, along
the rules of its grammar: through pieces, through bodies and through whole actions.

Results:
* `reads_body`: a body adds its tokens to the action that is open.
* `reads_actions`: well-formed actions are read as the nodes that they stand for.
* `ofText_template`, `ofText_leftmost`: what is read from a template, and from a text with a defect.
* `ofText_iff`: a text is read if it is a template, and refused for its leftmost defect if not.
-/

namespace Stencil

namespace Action

open Stencil.Grammar

/-! ## The lexer along the grammar -/

theorem opensAction_iff {cs : List Char} : opensAction cs = true ↔ opening <+: cs := by
  unfold opensAction
  split
  · simp
  · rename_i h
    simp only [Bool.false_eq_true, false_iff]
    rintro ⟨rest, rfl⟩
    exact h rest rfl

theorem closesAction_iff {cs : List Char} : closesAction cs = true ↔ closing <+: cs := by
  unfold closesAction
  split
  · simp
  · rename_i h
    simp only [Bool.false_eq_true, false_iff]
    rintro ⟨rest, rfl⟩
    exact h rest rfl

/-- Braces that begin in a piece end in it, or it is at its end. -/
theorem prefix_piece {piece rest : List Char} (hne : piece ≠ [])
    (h : opening <+: piece ++ opening ++ rest) : opening <+: piece ++ ['\x7b'] := by
  obtain ⟨c, cs, rfl⟩ := List.exists_cons_of_ne_nil hne
  cases cs with
  | nil => simpa using h
  | cons d ds => simpa using h

theorem literalLength_piece : ∀ {piece : List Char}, Piece piece → ∀ rest,
    literalLength (piece ++ opening ++ rest) = piece.length
  | [], _, rest => rfl
  | c :: piece, h, rest => by
    obtain ⟨hopen, hpiece⟩ := plain_cons.1 h
    have hno : opensAction (c :: (piece ++ opening ++ rest)) = false := by
      rw [Bool.eq_false_iff, Ne, opensAction_iff]
      exact fun hp => hopen (prefix_piece (List.cons_ne_nil c piece) hp)
    have ih := literalLength_piece hpiece rest
    rw [List.cons_append, List.cons_append, literalLength, hno, ih]
    rfl

theorem literalLength_plain : ∀ {cs : List Char}, Plain cs → literalLength cs = cs.length
  | [], _ => rfl
  | c :: cs, h => by
    obtain ⟨hopen, hcs⟩ := plain_cons.1 h
    have hno : opensAction (c :: cs) = false := by
      rwa [Bool.eq_false_iff, Ne, opensAction_iff]
    rw [literalLength, hno, literalLength_plain hcs]
    rfl

theorem nameLength_append {name rest : List Char} (hname : ∀ c ∈ name, isNameChar c = true)
    (hends : NameEnds rest) : nameLength (name ++ rest) = name.length := by
  have hrest : rest.takeWhile isNameChar = [] := by
    cases rest with
    | nil => rfl
    | cons c cs => simp [hends c rfl]
  rw [nameLength, List.takeWhile_append_of_pos hname, hrest, List.append_nil]

variable (p : List Char)

theorem text_action {piece : List Char} (hpiece : Piece piece) (rest : List Char) :
    text ⟨p, piece ++ opening ++ rest⟩ =
      if piece = [] then goto ⟨p, opening ++ rest⟩ .leftDelim
      else emit ⟨p, piece ++ opening ++ rest⟩ .text piece.length .leftDelim := by
  have hlen := literalLength_piece hpiece rest
  cases piece with
  | nil => rfl
  | cons c piece =>
    rw [List.length_cons] at hlen
    simp only [text, hlen]
    simp

theorem text_last {last : List Char} (hlast : Plain last) :
    text ⟨p, last⟩ =
      if last = [] then emit ⟨p, []⟩ .eof 0 .eof else emit ⟨p, last⟩ .text last.length .text := by
  have hlen := literalLength_plain hlast
  cases last with
  | nil => rfl
  | cons c cs =>
    rw [List.length_cons] at hlen
    simp only [text, hlen]
    simp

theorem inside_blank {c : Char} (hc : isBlank c = true) (cs : List Char) :
    inside ⟨p, c :: cs⟩ = inside ⟨p ++ [c], cs⟩ := by
  simp [inside, Cursor.skip, hc]

theorem inside_closing (rest : List Char) :
    inside ⟨p, closing ++ rest⟩ = goto ⟨p, closing ++ rest⟩ .rightDelim := by
  simp [inside, Cursor.skip, isBlank, closesAction]

theorem inside_nil : inside ⟨p, []⟩ = fail ⟨p, []⟩ "unclosed action" := by
  simp [inside, Cursor.skip, closesAction]

theorem inside_pipe (cs : List Char) :
    inside ⟨p, '|' :: cs⟩ = emit ⟨p, '|' :: cs⟩ .pipe 1 .inside := by
  simp [inside, Cursor.skip, isBlank, closesAction]

theorem inside_field {name rest : List Char} (hne : name ≠ [])
    (hname : ∀ c ∈ name, isNameChar c = true) (hends : NameEnds rest) :
    inside ⟨p, '.' :: name ++ rest⟩ = goto ⟨p, '.' :: name ++ rest⟩ .field := by
  have hpos : 0 < nameLength (name ++ rest) := by
    rw [nameLength_append hname hends]
    exact List.length_pos_iff.2 hne
  simp [inside, Cursor.skip, isBlank, closesAction, hpos]

theorem inside_identifier {first : Char} (hfirst : isNameStart first = true) (cs : List Char) :
    inside ⟨p, first :: cs⟩ = goto ⟨p, first :: cs⟩ .identifier := by
  have hne : ∀ d : Char, isNameStart d = false → first ≠ d := by
    rintro d hd rfl
    simp [hd] at hfirst
  simp [inside, Cursor.skip, isBlank, closesAction, hfirst, hne '|' (by decide),
    hne '.' (by decide), hne ' ' (by decide), hne '\t' (by decide), hne '\n' (by decide),
    hne '\x0c' (by decide), hne '\r' (by decide), hne '\x7d' (by decide)]

theorem inside_stray {c : Char} {cs : List Char} (h : Stray c cs) :
    inside ⟨p, c :: cs⟩ = fail ⟨p, c :: cs⟩ "unrecognized character in action" := by
  have hclose : closesAction (c :: cs) = false := by
    rw [Bool.eq_false_iff, Ne, closesAction_iff]
    rintro ⟨rest, hrest⟩
    cases hrest
    exact h.closing rfl rfl
  by_cases hc : c = '.'
  · subst hc
    have hlen : nameLength ([] ++ cs) = 0 := nameLength_append (by simp) (h.field rfl)
    rw [List.nil_append] at hlen
    simp [inside, Cursor.skip, h.blank, hclose, hlen]
  · simp [inside, Cursor.skip, h.blank, hclose, h.pipe, h.identifier]

/-- No step fills the slot twice. -/
theorem emitted_handler (state : State) (data : Machine.Data Cursor) :
    (handler state data).emitted.length ≤ 1 := by
  cases state with
  | text =>
    simp only [handler, text]
    split
    · split <;> simp [emit, goto]
    · simp [emit]
  | inside =>
    simp only [handler, inside]
    split
    · simp [goto]
    · split
      · simp [fail]
      · simp [emit]
      · split <;> simp [goto, fail]
      · split <;> simp [goto, fail]
  | leftDelim => exact Nat.le_refl 1
  | rightDelim => exact Nat.le_refl 1
  | field => exact Nat.le_refl 1
  | identifier => exact Nat.le_refl 1
  | eof => exact Nat.zero_le 1

theorem handler_field {name rest : List Char} (hname : ∀ c ∈ name, isNameChar c = true)
    (hends : NameEnds rest) : handler .field (.ok ⟨p, '.' :: name ++ rest⟩) =
      emit ⟨p, '.' :: name ++ rest⟩ .field ('.' :: name).length .inside := by
  have hlen := nameLength_append hname hends
  simp only [handler, Machine.Data.ok, List.cons_append, List.drop_succ_cons, List.drop_zero,
    hlen, List.length_cons, Nat.add_comm]

theorem isNameChar_of_isNameStart {c : Char} (h : isNameStart c = true) : isNameChar c = true := by
  simp only [isNameStart, Bool.or_eq_true] at h
  simp only [isNameChar, Char.isAlphanum, Bool.or_eq_true]
  exact h.imp_left .inl

theorem handler_identifier {first : Char} {name rest : List Char}
    (hfirst : isNameStart first = true) (hname : ∀ c ∈ name, isNameChar c = true)
    (hends : NameEnds rest) : handler .identifier (.ok ⟨p, first :: name ++ rest⟩) =
      emit ⟨p, first :: name ++ rest⟩ .identifier (first :: name).length .inside := by
  have hlen := nameLength_append (List.forall_mem_cons.2
    ⟨isNameChar_of_isNameStart hfirst, hname⟩) hends
  simp only [handler, Machine.Data.ok, hlen]

/-- A term is emitted in a state of its own. -/
theorem inside_term {word rest : List Char} {t : Node} (h : Term word t) (hends : NameEnds rest) :
    ∃ state kind, inside ⟨p, word ++ rest⟩ = goto ⟨p, word ++ rest⟩ state ∧ rank state = 0 ∧
      handler state (.ok ⟨p, word ++ rest⟩) =
        emit ⟨p, word ++ rest⟩ kind word.length .inside ∧
      (kind = .field ∨ kind = .identifier) ∧
      ∀ offset, term ⟨kind, String.ofList word, offset⟩ = .ok t := by
  cases h with
  | @field name hne hname =>
    exact ⟨.field, .field, inside_field p hne hname hends, rfl, handler_field p hname hends,
      .inl rfl, fun _ => rfl⟩
  | @identifier first name hfirst hname =>
    exact ⟨.identifier, .identifier, inside_identifier p hfirst _, rfl,
      handler_identifier p hfirst hname hends, .inr rfl, fun _ => rfl⟩

/-! ## The reader along the grammar -/

/-- Reading from a state of the lexer and a place, with an action open or not, comes to a result,
if the lexer is asked often enough. -/
def Reads (name : String) (source : List Char) (current : Option Opened) (state : State)
    (c : Cursor) (r : Except Error (List Node)) : Prop :=
  ∀ n, c.rest.length < n →
    Document.readItems name source current (Lexer.itemsWithin n (lexerAt state c)) = r

section

variable {p} {name : String} {source : List Char} {current current' : Option Opened}
  {state state' : State} {c c' : Cursor} {kind : Kind} {k : Nat} {r : Except Error (List Node)}

theorem reads_goto (h : handler state (.ok c) = goto c state') (hr : rank state' < rank state)
    (hreads : Reads name source current state' c r) : Reads name source current state c r := by
  intro n hn
  obtain ⟨n, rfl⟩ := Nat.exists_eq_add_one_of_ne_zero (Nat.ne_zero_of_lt hn)
  have hreads := hreads (n + 1) hn
  rw [Lexer.itemsWithin] at hreads ⊢
  rwa [Lexer.next_silent h hr]

theorem reads_blank {b : Char} {cs : List Char} (hb : isBlank b = true)
    (hreads : Reads name source current .inside ⟨p ++ [b], cs⟩ r) :
    Reads name source current .inside ⟨p, b :: cs⟩ r := by
  intro n hn
  obtain ⟨n, rfl⟩ := Nat.exists_eq_add_one_of_ne_zero (Nat.ne_zero_of_lt hn)
  have h : handler .inside (.ok ⟨p, b :: cs⟩) = handler .inside (.ok ⟨p ++ [b], cs⟩) :=
    inside_blank p hb cs
  have hreads := hreads (n + 1) (Nat.lt_of_succ_lt hn)
  rw [Lexer.itemsWithin] at hreads ⊢
  rwa [lexerAt, Lexer.next_congr h (emitted_handler _ _)]

/-- A word that is emitted as a token which fits. -/
theorem reads_word {cs word rest : List Char} {node : Option Node} (hcs : cs = word ++ rest)
    (h : handler state (.ok ⟨p, cs⟩) = emit ⟨p, cs⟩ kind word.length state') (hne : word ≠ [])
    (hstate : state' ≠ .eof) (hkind : kind ≠ .eof)
    (hfeed : feed current ⟨kind, String.ofList word, Text.byteSize p⟩ = .ok (node, current'))
    (hreads : Reads name source current' state' ⟨p ++ word, rest⟩ r) :
    Reads name source current state ⟨p, cs⟩ ((node.toList ++ ·) <$> r) := by
  subst hcs
  intro n hn
  obtain ⟨n, rfl⟩ := Nat.exists_eq_add_one_of_ne_zero (Nat.ne_zero_of_lt hn)
  have hpos := List.length_pos_iff.2 hne
  have hrest : rest.length < n := by
    simp only [List.length_append] at hn
    omega
  have hreads := hreads n hrest
  have hnext : (lexerAt state ⟨p, word ++ rest⟩).next =
      (.token ⟨kind, String.ofList word, Text.byteSize p⟩, lexerAt state' ⟨p ++ word, rest⟩) := by
    rw [Lexer.next_emit h]
    simp [lexerAt, Lexer.stand, hstate, Cursor.token, Cursor.offset, Cursor.skip]
  rw [Lexer.itemsWithin, hnext]
  dsimp only
  rw [Document.readItems, if_neg (by simp [hkind]), hfeed]
  dsimp only
  rw [hreads]

/-- A token that does not fit. -/
theorem reads_refused {e : Error} (h : handler state (.ok c) = emit c kind k state')
    (hkind : kind ≠ .eof) (hfeed : feed current (c.token kind k) = .error e) :
    Reads name source current state c
      (.error (e.within (Document.parseFailure name (Text.positionAt source c.offset)))) := by
  intro n hn
  obtain ⟨n, rfl⟩ := Nat.exists_eq_add_one_of_ne_zero (Nat.ne_zero_of_lt hn)
  rw [Lexer.itemsWithin, Lexer.next_emit h]
  dsimp only
  rw [Document.readItems, if_neg (by simp [Cursor.token, hkind]), hfeed]
  rfl

theorem reads_fail {message : String} (h : handler state (.ok c) = fail c message) :
    Reads name source current state c
      (.error ((c.error message).within (Document.lexFailure name))) := by
  intro n hn
  obtain ⟨n, rfl⟩ := Nat.exists_eq_add_one_of_ne_zero (Nat.ne_zero_of_lt hn)
  rw [Lexer.itemsWithin, Lexer.next_fail h]
  rfl

theorem reads_end : Reads name source none .text ⟨p, []⟩ (.ok []) := by
  intro n hn
  obtain ⟨n, rfl⟩ := Nat.exists_eq_add_one_of_ne_zero (Nat.ne_zero_of_lt hn)
  have h : handler .text (.ok ⟨p, []⟩) = emit ⟨p, []⟩ .eof 0 .eof := text_last p plain_nil
  rw [Lexer.itemsWithin, Lexer.next_emit h]
  rfl

/-! ## Pieces and bodies -/

theorem nil_append_map (r : Except Error (List Node)) : (([] : List Node) ++ ·) <$> r = r := by
  cases r <;> rfl

theorem append_append_map (ms ns : List Node) (r : Except Error (List Node)) :
    (ms ++ ·) <$> ((ns ++ ·) <$> r) = ((ms ++ ns) ++ ·) <$> r := by
  cases r with
  | error e => rfl
  | ok ns' => exact congrArg Except.ok (List.append_assoc ms ns ns').symm

theorem reads_piece {piece rest : List Char} (hpiece : Piece piece)
    (hreads : Reads name source none .leftDelim ⟨p ++ piece, opening ++ rest⟩ r) :
    Reads name source none .text ⟨p, piece ++ opening ++ rest⟩ ((textOf piece ++ ·) <$> r) := by
  have h : handler .text (.ok ⟨p, piece ++ opening ++ rest⟩) = _ := text_action p hpiece rest
  by_cases hne : piece = []
  · subst hne
    rw [if_pos rfl] at h
    rw [List.append_nil] at hreads
    rw [textOf, if_pos rfl, nil_append_map]
    exact reads_goto h (by decide) hreads
  · rw [if_neg hne] at h
    rw [textOf, if_neg hne]
    have hfeed : feed none ⟨.text, String.ofList piece, Text.byteSize p⟩ =
        .ok (some (.text (String.ofList piece)), none) := rfl
    exact reads_word (List.append_assoc _ _ _) h hne (by decide) (by decide) hfeed hreads

theorem reads_last {last : List Char} (hlast : Plain last) :
    Reads name source none .text ⟨p, last⟩ (.ok (textOf last)) := by
  have h : handler .text (.ok ⟨p, last⟩) = _ := text_last p hlast
  by_cases hne : last = []
  · subst hne
    exact reads_end
  · rw [if_neg hne] at h
    rw [textOf, if_neg hne]
    have hfeed : feed none ⟨.text, String.ofList last, Text.byteSize p⟩ =
        .ok (some (.text (String.ofList last)), none) := rfl
    exact reads_word (List.append_nil last).symm h hne (by decide) (by decide) hfeed reads_end

theorem reads_opening {rest : List Char}
    (hreads : Reads name source (some ⟨Text.byteSize p, []⟩) .inside ⟨p ++ opening, rest⟩ r) :
    Reads name source none .leftDelim ⟨p, opening ++ rest⟩ r := by
  have h : handler .leftDelim (.ok ⟨p, opening ++ rest⟩) =
      emit ⟨p, opening ++ rest⟩ .leftDelim opening.length .inside := rfl
  have hfeed : feed none ⟨.leftDelim, String.ofList opening, Text.byteSize p⟩ =
      .ok (none, some ⟨Text.byteSize p, []⟩) := rfl
  have h := reads_word rfl h (by simp) (by decide) (by decide) hfeed hreads
  rwa [Option.toList_none, nil_append_map] at h

/-- A word that becomes part of the action that is open. -/
theorem reads_inside {word rest : List Char} {o : Opened}
    (h : handler state (.ok ⟨p, word ++ rest⟩) =
      emit ⟨p, word ++ rest⟩ kind word.length .inside) (hne : word ≠ [])
    (hkind : kind = .field ∨ kind = .identifier ∨ kind = .pipe)
    (hreads : Reads name source (some { o with
      tokens := o.tokens ++ [⟨kind, String.ofList word, Text.byteSize p⟩] }) .inside
      ⟨p ++ word, rest⟩ r) :
    Reads name source (some o) state ⟨p, word ++ rest⟩ r := by
  have hfeed : feed (some o) ⟨kind, String.ofList word, Text.byteSize p⟩ = .ok (none,
      some { o with tokens := o.tokens ++ [⟨kind, String.ofList word, Text.byteSize p⟩] }) := by
    rcases hkind with rfl | rfl | rfl <;> rfl
  have hne' : kind ≠ .eof := by rcases hkind with rfl | rfl | rfl <;> decide
  have h := reads_word rfl h hne (by decide) hne' hfeed hreads
  rwa [Option.toList_none, nil_append_map] at h

/-- The tokens between two pipes are read as terms, in each segment. -/
def Spells (ts : List (Token Kind)) (terms : List (List Node)) : Prop :=
  List.Forall₂ (fun segment ns => segment.mapM term = .ok ns) (segments ts) terms

theorem Spells.term {t : Token Kind} {n : Node} {ts : List (Token Kind)} {ns : List Node}
    {others : List (List Node)} (hkind : t.kind ≠ .pipe) (ht : Action.term t = .ok n)
    (h : Spells ts (ns :: others)) : Spells (t :: ts) ((n :: ns) :: others) := by
  unfold Spells at h ⊢
  rw [segments, if_neg hkind]
  generalize segments ts = ss at h ⊢
  cases h with
  | cons hfirst hothers =>
    refine .cons ?_ hothers
    rw [List.mapM_cons, ht, hfirst]
    rfl

/-- **Bodies.** The tokens of a body are added to those of the action that is open. -/
theorem reads_body {body next : List Char} {terms : List (List Node)} (h : Body next body terms) :
    ∀ p : List Char, ∃ ts, Spells ts terms ∧ ∀ o : Opened,
      Reads name source (some { o with tokens := o.tokens ++ ts }) .inside ⟨p ++ body, next⟩ r →
      Reads name source (some o) .inside ⟨p, body ++ next⟩ r := by
  induction h with
  | nil =>
    intro p
    refine ⟨[], .cons rfl .nil, fun o hreads => ?_⟩
    rwa [List.append_nil, List.append_nil] at hreads
  | @blank c cs terms hc _ ih =>
    intro p
    obtain ⟨ts, hts, hbody⟩ := ih (p ++ [c])
    refine ⟨ts, hts, fun o hreads => reads_blank hc (hbody o ?_)⟩
    rwa [List.append_cons] at hreads
  | @pipe cs terms _ ih =>
    intro p
    obtain ⟨ts, hts, hbody⟩ := ih (p ++ ['|'])
    refine ⟨⟨.pipe, String.ofList ['|'], Text.byteSize p⟩ :: ts, .cons rfl hts,
      fun o hreads => ?_⟩
    have h : handler .inside (.ok ⟨p, ['|'] ++ (cs ++ next)⟩) = _ := inside_pipe p (cs ++ next)
    rw [List.append_cons o.tokens, List.append_cons p] at hreads
    show Reads name source (some o) .inside ⟨p, ['|'] ++ (cs ++ next)⟩ r
    exact reads_inside h (by simp) (by simp) (hbody _ hreads)
  | @term word cs t terms segments ht hends _ ih =>
    intro p
    obtain ⟨ts, hts, hbody⟩ := ih (p ++ word)
    obtain ⟨state, kind, hgoto, hrank, hemit, hkind, hterm⟩ := inside_term p ht hends
    have hpipe : kind ≠ .pipe := by rcases hkind with rfl | rfl <;> decide
    refine ⟨⟨kind, String.ofList word, Text.byteSize p⟩ :: ts, hts.term hpipe (hterm _),
      fun o hreads => ?_⟩
    rw [List.append_cons, ← List.append_assoc] at hreads
    rw [List.append_assoc]
    refine reads_goto hgoto (by rw [hrank]; decide) ?_
    exact reads_inside hemit ht.ne_nil (hkind.imp_right .inl) (hbody _ hreads)

/-! ## Actions -/

/-- The error of a segment without terms. -/
def missing (offset : Nat) : Error :=
  .make .parse "missing command in action" [("offset", toString offset)]

theorem mapM_command (offset : Nat) {segments : List (List (Token Kind))}
    {terms : List (List Node)}
    (h : List.Forall₂ (fun segment ns => segment.mapM term = .ok ns) segments terms) :
    segments.mapM (command offset) =
      if [] ∈ terms then .error (missing offset) else .ok (terms.map .command) := by
  induction h with
  | nil => rfl
  | @cons segment ns segments terms hsegment _ ih =>
    rw [List.mapM_cons, ih]
    cases segment with
    | nil =>
      cases hsegment
      rfl
    | cons t ts =>
      have hne : ns ≠ [] := (forall_of_mapM (fun _ _ => isTerm_term) hsegment).2 (by simp)
      simp only [command, hsegment, List.mem_cons, hne.symm]
      by_cases hempty : [] ∈ terms
      · simp [hempty]
        rfl
      · simp [hempty]
        rfl

theorem close_spells {o : Opened} {terms : List (List Node)} (h : Spells o.tokens terms) :
    o.close = if [] ∈ terms then .error (missing o.offset)
      else .ok (.action (terms.map .command)) := by
  rw [Opened.close, mapM_command o.offset h]
  split <;> rfl

theorem reads_closing {rest : List Char} {o : Opened} {terms : List (List Node)}
    (h : Spells o.tokens terms) (hterms : [] ∉ terms)
    (hreads : Reads name source none .text ⟨p ++ closing, rest⟩ r) :
    Reads name source (some o) .inside ⟨p, closing ++ rest⟩
      (([Node.action (terms.map .command)] ++ ·) <$> r) := by
  have hfeed : feed (some o) ⟨.rightDelim, String.ofList closing, Text.byteSize p⟩ =
      .ok (some (.action (terms.map .command)), none) := by
    simp only [feed, close_spells h, if_neg hterms]
    rfl
  have hemit : handler .rightDelim (.ok ⟨p, closing ++ rest⟩) =
      emit ⟨p, closing ++ rest⟩ .rightDelim closing.length .text := rfl
  exact reads_goto (inside_closing p rest) (by decide)
    (reads_word rfl hemit (by simp) (by decide) (by decide) hfeed hreads)

theorem reads_missing {rest : List Char} {o : Opened} {terms : List (List Node)}
    (h : Spells o.tokens terms) (hterms : [] ∈ terms) :
    Reads name source (some o) .inside ⟨p, closing ++ rest⟩ (.error ((missing o.offset).within
      (Document.parseFailure name (Text.positionAt source (Text.byteSize p))))) := by
  have hfeed : feed (some o) (Cursor.token ⟨p, closing ++ rest⟩ .rightDelim 2) =
      .error (missing o.offset) := by
    simp only [feed, Cursor.token, close_spells h, if_pos hterms]
    rfl
  exact reads_goto (inside_closing p rest) (by decide) (reads_refused rfl (by decide) hfeed)

/-- **One action**, through the end of its body. -/
theorem reads_action {piece body next : List Char} {terms : List (List Node)}
    (hpiece : Piece piece) (hbody : Body next body terms) :
    ∃ ts, Spells ts terms ∧
      (Reads name source (some ⟨Text.byteSize (p ++ piece), ts⟩) .inside
        ⟨p ++ piece ++ opening ++ body, next⟩ r →
      Reads name source none .text ⟨p, piece ++ opening ++ body ++ next⟩
        ((textOf piece ++ ·) <$> r)) := by
  obtain ⟨ts, hts, hreads⟩ := reads_body hbody (p ++ piece ++ opening)
  refine ⟨ts, hts, fun h => ?_⟩
  rw [List.append_assoc (piece ++ opening)]
  exact reads_piece hpiece (reads_opening (hreads ⟨_, []⟩ h))

/-- **Actions.** -/
theorem reads_actions {actions rest : List Char} {nodes : List Node} (h : Actions actions nodes) :
    ∀ p : List Char, Reads name source none .text ⟨p ++ actions, rest⟩ r →
      Reads name source none .text ⟨p, actions ++ rest⟩ ((nodes ++ ·) <$> r) := by
  induction h with
  | nil =>
    intro p hreads
    rw [nil_append_map]
    rwa [List.append_nil] at hreads
  | @cons piece body after terms nodes hpiece hbody hterms _ ih =>
    intro p hreads
    have hbody' : Body (closing ++ (after ++ rest)) body terms := hbody.congr_next rfl
    have hafter := ih (p ++ piece ++ opening ++ body ++ closing)
      (by simpa only [List.append_assoc] using hreads)
    obtain ⟨ts, hts, haction⟩ := reads_action hpiece hbody'
    have h := haction (reads_closing hts hterms hafter)
    have hnodes : textOf piece ++ [.action (terms.map .command)] ++ nodes =
        textOf piece ++ .action (terms.map .command) :: nodes := by simp
    rw [append_append_map, append_append_map, hnodes] at h
    simpa only [List.append_assoc] using h

end

/-! ## Texts -/

variable {name : String} {source : List Char}

theorem reads_template {cs : List Char} {nodes : List Node} (h : Template cs nodes) :
    Reads name source none .text ⟨[], cs⟩ (.ok nodes) := by
  cases h with
  | mk hactions hlast => exact reads_actions hactions [] (reads_last hlast)

/-- An error inside of an action is the error of the whole text: what has been read is lost. -/
theorem reads_error {actions piece body next : List Char} {nodes : List Node}
    {terms : List (List Node)} {e : Error} (hactions : Actions actions nodes)
    (hpiece : Piece piece) (hbody : Body next body terms)
    (h : ∀ ts, Spells ts terms →
      Reads name source (some ⟨Text.byteSize (actions ++ piece), ts⟩) .inside
        ⟨actions ++ piece ++ opening ++ body, next⟩ (.error e)) :
    Reads name source none .text ⟨[], actions ++ piece ++ opening ++ body ++ next⟩ (.error e) := by
  obtain ⟨ts, hts, haction⟩ := reads_action (p := actions) hpiece hbody
  have h : Reads name source none .text ⟨[], actions ++ (piece ++ opening ++ body ++ next)⟩
      (.error e) :=
    reads_actions hactions [] (haction (h ts hts))
  simpa only [List.append_assoc] using h

/-- **Defects.** -/
theorem reads_leftmost {cs before body next : List Char} {defect : Defect}
    (h : Leftmost cs defect before body next) :
    Reads name cs none .text ⟨[], cs⟩ (.error (defect.error name before body next)) := by
  cases h with
  | mk hactions hpiece hmalformed =>
    cases hmalformed with
    | unclosed hbody =>
      exact reads_error hactions hpiece hbody fun ts _ => reads_fail (inside_nil _)
    | unrecognized hbody hstray =>
      exact reads_error hactions hpiece hbody fun ts _ => reads_fail (inside_stray _ hstray)
    | missingCommand hbody hempty =>
      refine reads_error hactions hpiece (hbody.congr_next rfl) fun ts hts => ?_
      rw [Defect.error, ← Text.positionAt_append _ (closing ++ _)]
      exact reads_missing hts hempty

end Action

namespace Grammar

variable {name text : String}

theorem readItems_of_reads {r : Except Error (List Node)}
    (h : Action.Reads name text.toList none .text ⟨[], text.toList⟩ r) :
    Document.ofText name text = r.map fun nodes => .new name (.root nodes) := by
  have hitems : Document.readItems name text.toList none (actionLexer text).items = r :=
    h (text.toList.length + 2) (by simp)
  rw [Document.ofText, hitems]

theorem ofText_template {nodes : List Node} (h : Template text.toList nodes) :
    Document.ofText name text = .ok (.new name (.root nodes)) :=
  readItems_of_reads (Action.reads_template h)

theorem ofText_leftmost {defect : Defect} {before body next : List Char}
    (h : Leftmost text.toList defect before body next) :
    Document.ofText name text = .error (defect.error name before body next) :=
  readItems_of_reads (Action.reads_leftmost h)

/-- What is read from a text is what it stands for as a template. -/
theorem template_of_ofText {d : Document} (h : Document.ofText name text = .ok d) :
    ∃ nodes, Template text.toList nodes ∧ d = .new name (.root nodes) := by
  rcases template_or_defect text.toList with ⟨nodes, hnodes⟩ | ⟨defect, before, body, next, hl⟩
  · rw [ofText_template hnodes] at h
    exact ⟨nodes, hnodes, (Except.ok.inj h).symm⟩
  · rw [ofText_leftmost hl] at h
    cases h

theorem leftmost_of_ofText {e : Error} (h : Document.ofText name text = .error e) :
    ∃ defect before body next, Leftmost text.toList defect before body next ∧
      e = defect.error name before body next := by
  rcases template_or_defect text.toList with ⟨nodes, hnodes⟩ | ⟨defect, before, body, next, hl⟩
  · rw [ofText_template hnodes] at h
    cases h
  · rw [ofText_leftmost hl] at h
    exact ⟨defect, before, body, next, hl, (Except.error.inj h).symm⟩

/-- **The grammar.** A text is read if it is a template, and the tree is what the template stands
for. If not, the error is that of the defect of the leftmost malformed action, and its kind is told
by the defect. -/
theorem ofText_iff (name text : String) :
    (∀ d, Document.ofText name text = .ok d ↔
      ∃ nodes, Template text.toList nodes ∧ d = .new name (.root nodes)) ∧
    ∀ e, Document.ofText name text = .error e ↔
      ∃ defect before body next, Leftmost text.toList defect before body next ∧
        e = defect.error name before body next ∧ e.kind = defect.kind := by
  refine ⟨fun d => ⟨template_of_ofText, ?_⟩, fun e => ⟨fun h => ?_, ?_⟩⟩
  · rintro ⟨nodes, hnodes, rfl⟩
    exact ofText_template hnodes
  · obtain ⟨defect, before, body, next, hl, rfl⟩ := leftmost_of_ofText h
    exact ⟨defect, before, body, next, hl, rfl, defect.kind_error name before body next⟩
  · rintro ⟨defect, before, body, next, hl, rfl, -⟩
    exact ofText_leftmost hl

end Grammar

end Stencil
