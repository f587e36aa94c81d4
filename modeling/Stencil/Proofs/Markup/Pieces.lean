import Stencil.Proofs.Token.Requests
import Stencil.Token.Markup

/-!
# The tokens of markup as a list

The lexer of markup gives out one token at a time and may take a silent step before it. Here the
same tokens are a recursion on the text: `pieces` takes the first token off and goes on behind it.

Results:
* `tokens_markupLexer`: the lexer gives out the pieces, each with its offset, and then the end. It
  never fails.
* `scan_pieces`: what the pieces look like. A tag that is not closed is the last of them.
* `pieces_closedTag`, `pieces_openTag`, `pieces_plain`: the pieces of a text that begins with a tag
  or with a text without `<`.
-/

namespace Stencil.Markup

/-- A token without its place in the source. -/
structure Piece where
  kind : Kind
  value : List Char
deriving Repr, DecidableEq

/-- The kind of token that begins in a state. -/
def State.kind : State → Kind
  | .text => .text
  | .startTag => .startTag
  | .endTag => .endTag
  | .comment => .comment
  | .eof => .eof

/-- The number of characters of the markup that begins in a state. -/
def State.length (cs : List Char) : State → Nat
  | .startTag | .endTag => tagLength cs
  | .comment => 4 + commentEnd (cs.drop 4)
  | .text | .eof => 0

/-- Kind and number of characters of the first token of a text that is not empty. -/
def front (cs : List Char) : Kind × Nat :=
  match markupAt cs with
  | some state => (state.kind, state.length cs)
  | none => (.text, plainLength cs)

/-! ## Markup at the front -/

theorem markupAt_eq_some {cs : List Char} {state : State} (h : markupAt cs = some state) :
    (state = .startTag ∧ ∃ c rest, c.isAlpha = true ∧ cs = '<' :: c :: rest) ∨
      (state = .endTag ∧ ∃ rest, cs = '<' :: '/' :: rest) ∨
      (state = .comment ∧ ∃ rest, cs = '<' :: '!' :: '-' :: '-' :: rest) := by
  unfold markupAt at h
  split at h
  · cases h; exact .inr (.inl ⟨rfl, _, rfl⟩)
  · cases h; exact .inr (.inr ⟨rfl, _, rfl⟩)
  · rename_i c rest _ _
    split at h
    · cases h; exact .inl ⟨rfl, c, rest, ‹_›, rfl⟩
    · cases h
  · cases h

@[simp] theorem markupAt_cons_of_ne {c : Char} (h : c ≠ '<') (cs : List Char) :
    markupAt (c :: cs) = none := by
  unfold markupAt
  split <;> simp_all

theorem markupAt_letter {c : Char} (h : c.isAlpha = true) (cs : List Char) :
    markupAt ('<' :: c :: cs) = some .startTag := by
  unfold markupAt
  split
  · simp_all
  · simp_all
  · simp_all
  · simp_all

theorem plainLength_of_markup {cs : List Char} {state : State} (h : markupAt cs = some state) :
    plainLength cs = 0 := by
  cases cs with
  | nil => rfl
  | cons c cs => simp [plainLength, h]

theorem plainLength_pos {c : Char} {cs : List Char} (h : markupAt (c :: cs) = none) :
    plainLength (c :: cs) = plainLength cs + 1 := by
  simp [plainLength, h]

theorem plainLength_append {cs : List Char} (h : '<' ∉ cs) (rest : List Char) :
    plainLength (cs ++ rest) = cs.length + plainLength rest := by
  induction cs with
  | nil => simp
  | cons c cs ih =>
    simp only [List.mem_cons, not_or] at h
    rw [List.cons_append, plainLength_pos (markupAt_cons_of_ne (Ne.symm h.1) _), ih h.2,
      List.length_cons]
    omega

theorem tagLength_append {cs : List Char} (h : '>' ∉ cs) (rest : List Char) :
    tagLength (cs ++ '>' :: rest) = cs.length + 1 := by
  induction cs with
  | nil => simp [tagLength]
  | cons c cs ih =>
    simp only [List.mem_cons, not_or] at h
    simp [tagLength, Ne.symm h.1, ih h.2]

theorem tagLength_of_not_mem {cs : List Char} (h : '>' ∉ cs) : tagLength cs = cs.length := by
  induction cs with
  | nil => rfl
  | cons c cs ih =>
    simp only [List.mem_cons, not_or] at h
    simp [tagLength, Ne.symm h.1, ih h.2]

theorem tagLength_pos (c : Char) (cs : List Char) : 0 < tagLength (c :: cs) := by
  unfold tagLength
  split <;> omega

theorem front_pos {cs : List Char} (h : cs ≠ []) : 0 < (front cs).2 := by
  unfold front
  split
  · rename_i state hm
    rcases markupAt_eq_some hm with ⟨rfl, c, rest, -, rfl⟩ | ⟨rfl, rest, rfl⟩ | ⟨rfl, rest, rfl⟩
    · exact tagLength_pos '<' _
    · exact tagLength_pos '<' _
    · show 0 < 4 + _
      omega
  · rename_i hm
    cases cs with
    | nil => exact absurd rfl h
    | cons c cs => rw [plainLength_pos hm]; omega

/-! ## Pieces -/

/-- The tokens of a text but for the end, in order. -/
def pieces (cs : List Char) : List Piece :=
  if h : cs = [] then []
  else
    have := front_pos h
    ⟨(front cs).1, cs.take (front cs).2⟩ :: pieces (cs.drop (front cs).2)
termination_by cs.length
decreasing_by
  have := List.length_pos_iff.2 h
  simp only [List.length_drop]
  omega

@[simp] theorem pieces_nil : pieces [] = [] := by simp [pieces]

theorem pieces_of_ne_nil {cs : List Char} (h : cs ≠ []) :
    pieces cs = ⟨(front cs).1, cs.take (front cs).2⟩ :: pieces (cs.drop (front cs).2) := by
  rw [pieces, dif_neg h]

/-- What stands between the delimiters of a tag. -/
inductive IsTag : Kind → List Char → Prop where
  | startTag {c : Char} {cs : List Char} : c.isAlpha = true → '>' ∉ c :: cs →
    IsTag .startTag (c :: cs)
  | endTag {cs : List Char} : '>' ∉ cs → IsTag .endTag cs

theorem IsTag.not_mem {kind : Kind} {cs : List Char} (h : IsTag kind cs) : '>' ∉ cs := by
  cases h <;> assumption

theorem IsTag.not_mem_opening {kind : Kind} {cs : List Char} (h : IsTag kind cs) :
    '>' ∉ kind.opening ++ cs := by
  cases h <;> simp_all [Kind.opening]

theorem IsTag.front_eq {kind : Kind} {cs : List Char} (h : IsTag kind cs) (rest : List Char) :
    front (kind.opening ++ cs ++ rest) = (kind, tagLength (kind.opening ++ cs ++ rest)) := by
  cases h with
  | startTag hc _ =>
    simp only [Kind.opening, List.cons_append, List.nil_append, front, markupAt_letter hc]
    rfl
  | endTag _ => rfl

theorem pieces_closedTag {kind : Kind} {cs : List Char} (h : IsTag kind cs) (rest : List Char) :
    pieces (kind.opening ++ cs ++ '>' :: rest) =
      ⟨kind, kind.opening ++ cs ++ ['>']⟩ :: pieces rest := by
  have hlen := tagLength_append h.not_mem_opening rest
  rw [pieces_of_ne_nil (by simp), h.front_eq, hlen]
  simp only [List.take_length_add_append, List.drop_length_add_append]
  rfl

theorem pieces_openTag {kind : Kind} {cs : List Char} (h : IsTag kind cs) :
    pieces (kind.opening ++ cs) = [⟨kind, kind.opening ++ cs⟩] := by
  have hfront := h.front_eq []
  rw [List.append_nil, tagLength_of_not_mem h.not_mem_opening] at hfront
  rw [pieces_of_ne_nil (by cases h <;> simp [Kind.opening]), hfront]
  simp only [List.take_length, List.drop_length, pieces_nil]

/-- Text without `<` becomes the front of the text that follows it. -/
theorem pieces_plain {cs : List Char} (hne : cs ≠ []) (h : '<' ∉ cs) (rest : List Char) :
    pieces (cs ++ rest) = ⟨.text, cs ++ rest.take (plainLength rest)⟩ ::
      pieces (rest.drop (plainLength rest)) := by
  have hfront : front (cs ++ rest) = (.text, cs.length + plainLength rest) := by
    obtain ⟨c, cs, rfl⟩ := List.exists_cons_of_ne_nil hne
    have hc : c ≠ '<' := by rintro rfl; simp at h
    simp only [front, List.cons_append, markupAt_cons_of_ne hc]
    rw [← List.cons_append, plainLength_append h]
  rw [pieces_of_ne_nil (by simp [hne]), hfront]
  simp only [List.take_length_add_append, List.drop_length_add_append]

/-- The pieces of a text, by what they look like. -/
inductive Scan : List Char → List Piece → Prop where
  | nil : Scan [] []
  | text {cs rest : List Char} {ps : List Piece} : cs ≠ [] → Scan rest ps →
    Scan (cs ++ rest) (⟨.text, cs⟩ :: ps)
  | closedTag {kind : Kind} {cs rest : List Char} {ps : List Piece} : IsTag kind cs →
    Scan rest ps →
    Scan (kind.opening ++ cs ++ '>' :: rest) (⟨kind, kind.opening ++ cs ++ ['>']⟩ :: ps)
  | openTag {kind : Kind} {cs : List Char} : IsTag kind cs →
    Scan (kind.opening ++ cs) [⟨kind, kind.opening ++ cs⟩]
  | comment {cs rest : List Char} {ps : List Piece} : Scan rest ps →
    Scan (cs ++ rest) (⟨.comment, cs⟩ :: ps)

theorem tag_split (kind : Kind) {cs : List Char}
    (h : ∀ body rest, cs = body ++ rest → '>' ∉ body → (rest = [] ∨ ∃ tail, rest = '>' :: tail) →
      IsTag kind body) :
    (∃ body rest, IsTag kind body ∧ cs = body ++ '>' :: rest) ∨ IsTag kind cs := by
  by_cases hm : '>' ∈ cs
  · obtain ⟨body, rest, rfl, hb⟩ := List.eq_append_cons_of_mem hm
    exact .inl ⟨body, rest, h body _ rfl hb (.inr ⟨rest, rfl⟩), rfl⟩
  · exact .inr (h cs [] (List.append_nil cs).symm hm (.inl rfl))

theorem startTag_split {c : Char} (hc : c.isAlpha = true) (cs : List Char) :
    (∃ body rest, IsTag .startTag body ∧ c :: cs = body ++ '>' :: rest) ∨
      IsTag .startTag (c :: cs) := by
  refine tag_split .startTag fun body rest hcs hb hrest => ?_
  cases body with
  | nil =>
    rcases hrest with rfl | ⟨tail, rfl⟩
    · simp at hcs
    · simp only [List.nil_append, List.cons.injEq] at hcs
      rw [hcs.1] at hc
      exact absurd hc (by decide)
  | cons d body =>
    simp only [List.cons_append, List.cons.injEq] at hcs
    exact .startTag (hcs.1 ▸ hc) hb

theorem endTag_split (cs : List Char) :
    (∃ body rest, IsTag .endTag body ∧ cs = body ++ '>' :: rest) ∨ IsTag .endTag cs :=
  tag_split .endTag fun _ _ _ hb _ => .endTag hb

theorem scan_tag {kind : Kind} {cs : List Char}
    (h : (∃ body rest, IsTag kind body ∧ cs = body ++ '>' :: rest) ∨ IsTag kind cs)
    (ih : ∀ rest, rest.length < (kind.opening ++ cs).length → Scan rest (pieces rest)) :
    Scan (kind.opening ++ cs) (pieces (kind.opening ++ cs)) := by
  rcases h with ⟨body, rest, hb, rfl⟩ | hb
  · have hlt : rest.length < (kind.opening ++ (body ++ '>' :: rest)).length := by simp; omega
    rw [← List.append_assoc, pieces_closedTag hb]
    exact .closedTag hb (ih rest hlt)
  · rw [pieces_openTag hb]
    exact .openTag hb

theorem scan_pieces (cs : List Char) : Scan cs (pieces cs) := by
  induction hn : cs.length using Nat.strongRecOn generalizing cs with
  | ind n ih =>
  subst hn
  have ih' : ∀ rest : List Char, rest.length < cs.length → Scan rest (pieces rest) :=
    fun rest h => ih _ h rest rfl
  by_cases hne : cs = []
  · subst hne; rw [pieces_nil]; exact .nil
  have hpos := front_pos hne
  have hlen := List.length_pos_iff.2 hne
  have hdrop := ih' (cs.drop (front cs).2) (by simp only [List.length_drop]; omega)
  cases hm : markupAt cs with
  | none =>
    have hf : (front cs).1 = .text := by simp [front, hm]
    have := @Scan.text (cs.take (front cs).2) _ _ (by simp [hne]; omega) hdrop
    rwa [List.take_append_drop, ← hf, ← pieces_of_ne_nil hne] at this
  | some state =>
    rcases markupAt_eq_some hm with ⟨rfl, c, rest, hc, rfl⟩ | ⟨rfl, rest, rfl⟩ | ⟨rfl, -⟩
    · exact scan_tag (startTag_split hc rest) ih'
    · exact scan_tag (endTag_split rest) ih'
    · have hf : (front cs).1 = .comment := by simp [front, hm, State.kind]
      have := @Scan.comment (cs.take (front cs).2) _ _ hdrop
      rwa [List.take_append_drop, ← hf, ← pieces_of_ne_nil hne] at this

/-- No character is lost. -/
theorem flatMap_value {cs : List Char} {ps : List Piece} (h : Scan cs ps) :
    ps.flatMap Piece.value = cs := by
  induction h with
  | nil => rfl
  | text _ _ ih => simp [ih]
  | closedTag _ _ ih => simp [ih]
  | openTag _ => simp
  | comment _ ih => simp [ih]

/-! ## The lexer -/

/-- The tokens of pieces that start at an offset, and the end behind them. -/
def place (offset : Nat) : List Piece → List (Token Kind)
  | [] => [⟨.eof, "", offset⟩]
  | p :: ps =>
    ⟨p.kind, String.ofList p.value, offset⟩ :: place (offset + Text.byteSize p.value) ps

/-- The lexer in a state, at a place of its source. -/
abbrev lexerAt (state : State) (c : Cursor) : Lexer State Kind :=
  Lexer.stand handler .eof rank state c

/-- The states in which the lexer comes to the rest of a source. -/
def Meets (state : State) (rest : List Char) : Prop := state = .text ∨ markupAt rest = some state

theorem meets_getD (cs : List Char) : Meets ((markupAt cs).getD .text) cs := by
  unfold Meets
  cases markupAt cs <;> simp

theorem Meets.ne_eof {state : State} {rest : List Char} (h : Meets state rest) : state ≠ .eof := by
  rintro rfl
  rcases h with h | h
  · cases h
  · rcases markupAt_eq_some h with ⟨h, -⟩ | ⟨h, -⟩ | ⟨h, -⟩ <;> cases h

theorem handler_markup {state : State} {c : Cursor} (h : markupAt c.rest = some state) :
    handler state (.ok c) = emit c state.kind (state.length c.rest) .text ∧ rank state = 0 := by
  rcases markupAt_eq_some h with ⟨rfl, -⟩ | ⟨rfl, -⟩ | ⟨rfl, -⟩ <;> exact ⟨rfl, rfl⟩

theorem text_markup {state : State} {c : Cursor} (h : markupAt c.rest = some state) :
    text c = goto c state := by
  simp [text, plainLength_of_markup h, h]

theorem text_plain {c : Cursor} (h : 0 < plainLength c.rest) :
    text c = emit c .text (plainLength c.rest)
      ((markupAt (c.skip (plainLength c.rest)).rest).getD .text) := by
  obtain ⟨n, hn⟩ : ∃ n, plainLength c.rest = n + 1 := ⟨plainLength c.rest - 1, by omega⟩
  simp only [text, hn]
  rfl

/-- One request takes the first piece off. -/
theorem next_lexerAt {state : State} {c : Cursor} (hm : Meets state c.rest) (hne : c.rest ≠ []) :
    ∃ state', Meets state' (c.skip (front c.rest).2).rest ∧
      (lexerAt state c).next =
        (.token (c.token (front c.rest).1 (front c.rest).2),
          lexerAt state' (c.skip (front c.rest).2)) := by
  have step : ∀ {kind n state state'}, handler state (.ok c) = emit c kind n state' →
      state' ≠ .eof →
      (lexerAt state c).next = (.token (c.token kind n), lexerAt state' (c.skip n)) := by
    intro kind n state state' hs hne
    rw [Lexer.next_emit hs]
    simp [lexerAt, Lexer.stand, hne]
  cases hmark : markupAt c.rest with
  | some mark =>
    have hf : front c.rest = (mark.kind, mark.length c.rest) := by simp [front, hmark]
    obtain ⟨hemit, hrank⟩ := handler_markup hmark
    refine ⟨.text, .inl rfl, ?_⟩
    rw [hf, ← step hemit (by decide)]
    rcases hm with rfl | hm
    · exact Lexer.next_silent (text_markup hmark) (by rw [hrank]; decide)
    · obtain rfl : mark = state := by simpa [hmark] using hm
      rfl
  | none =>
    obtain rfl : state = .text := by simpa [Meets, hmark] using hm
    have hf : front c.rest = (.text, plainLength c.rest) := by simp [front, hmark]
    have hpos := front_pos hne
    have hmeets := meets_getD (c.skip (plainLength c.rest)).rest
    rw [hf] at hpos ⊢
    exact ⟨_, hmeets, step (text_plain hpos) hmeets.ne_eof⟩

theorem next_lexerAt_end {c : Cursor} (h : c.rest = []) :
    ∃ l, (lexerAt .text c).next = (.token ⟨.eof, "", c.offset⟩, l) ∧ l.finished = true := by
  have hemit : handler .text (.ok c) = emit c .eof 0 .eof := by
    simp [handler, text, Machine.Data.ok, h, plainLength, markupAt]
  refine ⟨_, Lexer.next_emit hemit, ?_⟩
  simp

theorem itemsWithin_lexerAt (n : Nat) : ∀ {state : State} {c : Cursor}, Meets state c.rest →
    c.rest.length + 1 ≤ n →
    Lexer.itemsWithin n (lexerAt state c) = (place c.offset (pieces c.rest)).map .ok := by
  induction n with
  | zero => intro state c _ h; omega
  | succ n ih =>
    intro state c hm hn
    rw [Lexer.itemsWithin]
    by_cases hne : c.rest = []
    · obtain rfl : state = .text := by simpa [Meets, hne, markupAt, eq_comm] using hm
      obtain ⟨l, hl, hfin⟩ := next_lexerAt_end hne
      rw [hl, hne, pieces_nil]
      simp [place, Lexer.itemsWithin_of_finished hfin]
    · obtain ⟨state', hm', hnext⟩ := next_lexerAt hm hne
      have hpos := front_pos hne
      have hlen := List.length_pos_iff.2 hne
      have hrest : (c.skip (front c.rest).2).rest.length + 1 ≤ n := by
        simp only [Cursor.skip, List.length_drop]
        omega
      rw [hnext, pieces_of_ne_nil hne]
      simp only [ih hm' hrest, place, List.map_cons]
      congr 1
      simp [Cursor.skip, Cursor.offset]

/-- The tokens of a text are its pieces and the end. -/
theorem tokens_markupLexer (source : String) :
    (markupLexer source).tokens = .ok (place 0 (pieces source.toList)) := by
  have hitems : (markupLexer source).items = (place 0 (pieces source.toList)).map .ok :=
    itemsWithin_lexerAt (source.toList.length + 2) (.inl rfl) (Nat.le_succ _)
  have hpure := List.mapM_pure (m := Except Error) (f := id) (l := place 0 (pieces source.toList))
  rw [List.map_id] at hpure
  rw [Lexer.tokens, hitems, List.mapM_map]
  exact hpure

end Stencil.Markup
