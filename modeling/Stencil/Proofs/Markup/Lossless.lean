import Stencil.Proofs.Markup.Cuts
import Stencil.Proofs.Markup.Segments
import Stencil.Proofs.Token.Stream

/-!
# Markup, token by token

The tokens of markup put together are the source. What each of them looks like is said here without
the functions of the lexer: a text holds no markup and goes on up to some, a tag or a comment goes
on through its first closing delimiter, and to the end of the source if there is none.

Results:
* `lexeme_front`: the first token of a text looks like that.
* `course_meets`: so do all, and the requests that give them out are orderly.
* `tokens_lossless`: the tokens of a source with their offsets and their parts.
-/

namespace Stencil.Markup

/-! ## Lexemes -/

/-- Markup begins at the front of the text. -/
inductive Opens : List Char → Prop where
  | startTag {c : Char} {cs : List Char} : c.isAlpha = true → Opens ('<' :: c :: cs)
  | endTag {cs : List Char} : Opens ('<' :: '/' :: cs)
  | comment {cs : List Char} : Opens ('<' :: '!' :: '-' :: '-' :: cs)

/-- What may stand behind the opening delimiter of a kind. -/
def Starts : Kind → List Char → Prop
  | .startTag, content => ∃ c cs, content = c :: cs ∧ c.isAlpha = true
  | .endTag, _ | .comment, _ => True
  | .text, _ | .eof, _ => False

/-- The text of a token of a kind, with the rest of the source behind it. -/
inductive Lexeme : Kind → List Char → List Char → Prop where
  | text {cs rest : List Char} : cs ≠ [] →
    (∀ us vs, cs = us ++ vs → vs ≠ [] → ¬Opens (vs ++ rest)) → (rest = [] ∨ Opens rest) →
    Lexeme .text cs rest
  | closed {kind : Kind} {content rest : List Char} : Starts kind content →
    ¬kind.closing <:+: content → Lexeme kind (kind.opening ++ content ++ kind.closing) rest
  | cut {kind : Kind} {content : List Char} : Starts kind content → ¬kind.closing <:+: content →
    Lexeme kind (kind.opening ++ content) []

/-- The tokens from a place of the source to its end. -/
inductive Lexed : Cursor → List (Token Kind) → Prop where
  | nil {p : List Char} : Lexed ⟨p, []⟩ []
  | cons {p value rest : List Char} {kind : Kind} {ts : List (Token Kind)} :
    Lexeme kind value rest → Lexed ⟨p ++ value, rest⟩ ts →
    Lexed ⟨p, value ++ rest⟩ (⟨kind, String.ofList value, Text.byteSize p⟩ :: ts)

theorem opens_iff {cs : List Char} : Opens cs ↔ ∃ state, markupAt cs = some state := by
  constructor
  · intro h
    cases h with
    | startTag hc => exact ⟨_, markupAt_letter hc _⟩
    | endTag => exact ⟨_, rfl⟩
    | comment => exact ⟨_, rfl⟩
  · rintro ⟨state, h⟩
    rcases markupAt_eq_some h with ⟨-, c, rest, hc, rfl⟩ | ⟨-, rest, rfl⟩ | ⟨-, rest, rfl⟩
    · exact .startTag hc
    · exact .endTag
    · exact .comment

theorem Starts.delimiters {kind : Kind} {content : List Char} (h : Starts kind content) :
    kind.opening ≠ [] ∧ kind.closing ≠ [] := by
  cases kind with
  | text | eof => exact h.elim
  | startTag | endTag | comment => simp [Kind.opening, Kind.closing]

theorem Lexeme.ne_nil {kind : Kind} {value rest : List Char} (h : Lexeme kind value rest) :
    value ≠ [] := by
  cases h with
  | text hne => exact hne
  | closed hs => simp [hs.delimiters.1]
  | cut hs => simp [hs.delimiters.1]

/-! ## The first lexeme -/

/-- Markup begins behind a text, if anything does, and nowhere in it. -/
theorem plainLength_spec : ∀ cs : List Char,
    (∀ us vs, cs.take (plainLength cs) = us ++ vs → vs ≠ [] →
      ¬Opens (vs ++ cs.drop (plainLength cs))) ∧
      (cs.drop (plainLength cs) = [] ∨ Opens (cs.drop (plainLength cs)))
  | [] => by simp
  | c :: cs => by
    cases hm : markupAt (c :: cs) with
    | some state =>
      rw [plainLength_of_markup hm]
      refine ⟨fun us vs h hne => ?_, .inr (opens_iff.2 ⟨state, hm⟩)⟩
      simp_all
    | none =>
      obtain ⟨hinside, hbehind⟩ := plainLength_spec cs
      rw [plainLength_pos hm, List.drop_succ_cons, List.take_succ_cons]
      refine ⟨fun us vs h hne hopens => ?_, hbehind⟩
      cases us with
      | nil =>
        rw [List.nil_append] at h
        rw [← h, List.cons_append, List.take_append_drop] at hopens
        obtain ⟨state, hs⟩ := opens_iff.1 hopens
        rw [hm] at hs
        cases hs
      | cons d us =>
        exact hinside us vs (List.cons.inj h).2 hne hopens

theorem lexeme_text {cs : List Char} (hne : cs ≠ []) (hm : markupAt cs = none) :
    Lexeme .text (cs.take (plainLength cs)) (cs.drop (plainLength cs)) := by
  obtain ⟨hinside, hbehind⟩ := plainLength_spec cs
  have hpos : 0 < plainLength cs := by
    obtain ⟨c, cs, rfl⟩ := List.exists_cons_of_ne_nil hne
    rw [plainLength_pos hm]
    omega
  refine .text ?_ hinside hbehind
  simp [hne]
  omega

theorem not_infix_close {cs : List Char} (h : '>' ∉ cs) : ¬['>'] <:+: cs :=
  fun hi => h (hi.subset List.mem_cons_self)

/-- A tag goes on through the first `>`. -/
theorem lexeme_tag {kind : Kind} {cs : List Char} (hclosing : kind.closing = ['>'])
    (hopening : '>' ∉ kind.opening)
    (hstarts : ∀ content, (content = cs ∨ ∃ rest, cs = content ++ '>' :: rest) →
      Starts kind content) :
    Lexeme kind ((kind.opening ++ cs).take (tagLength (kind.opening ++ cs)))
      ((kind.opening ++ cs).drop (tagLength (kind.opening ++ cs))) := by
  by_cases hm : '>' ∈ cs
  · obtain ⟨content, rest, rfl, hcontent⟩ := List.eq_append_cons_of_mem hm
    have hno : '>' ∉ kind.opening ++ content := by simp [hopening, hcontent]
    have hlen := tagLength_append hno rest
    rw [List.append_assoc] at hlen
    rw [hlen, ← List.append_assoc, List.take_length_add_append, List.drop_length_add_append]
    have := @Lexeme.closed kind content rest (hstarts content (.inr ⟨rest, rfl⟩))
      (by rw [hclosing]; exact not_infix_close hcontent)
    rwa [hclosing] at this
  · have hno : '>' ∉ kind.opening ++ cs := by simp [hopening, hm]
    rw [tagLength_of_not_mem hno, List.take_length, List.drop_length]
    exact .cut (hstarts cs (.inl rfl))
      (by rw [hclosing]; exact not_infix_close hm)

theorem comment_split (body : List Char) :
    (∃ content rest, body = content ++ Kind.comment.closing ++ rest ∧
      ¬Kind.comment.closing <:+: content ∧ commentEnd body = content.length + 3) ∨
        ¬Kind.comment.closing <:+: body ∧ commentEnd body = body.length := by
  fun_induction commentEnd body with
  | case1 rest => exact .inl ⟨[], rest, rfl, by simp [Kind.closing], rfl⟩
  | case2 => exact .inr ⟨by simp [Kind.closing], rfl⟩
  | case3 c cs hc ih =>
    have hno : ¬Kind.comment.closing <+: c :: cs := by
      rintro ⟨rest, hrest⟩
      cases hrest
      exact hc rest rfl rfl
    rcases ih with ⟨content, rest, rfl, hcontent, hlen⟩ | ⟨hcs, hlen⟩
    · refine .inl ⟨c :: content, rest, rfl, ?_, by rw [hlen, List.length_cons]⟩
      rw [List.infix_cons_iff, not_or]
      exact ⟨fun hp => hno (hp.trans ⟨Kind.comment.closing ++ rest, by simp⟩), hcontent⟩
    · refine .inr ⟨?_, by rw [hlen, List.length_cons]⟩
      rw [List.infix_cons_iff, not_or]
      exact ⟨hno, hcs⟩

theorem lexeme_comment (body : List Char) :
    Lexeme .comment ((Kind.comment.opening ++ body).take (4 + commentEnd body))
      ((Kind.comment.opening ++ body).drop (4 + commentEnd body)) := by
  rw [show 4 + commentEnd body = Kind.comment.opening.length + commentEnd body from rfl,
    List.take_length_add_append, List.drop_length_add_append]
  rcases comment_split body with ⟨content, rest, rfl, hcontent, hlen⟩ | ⟨hbody, hlen⟩
  · have hlen' : commentEnd (content ++ Kind.comment.closing ++ rest) =
        (content ++ Kind.comment.closing).length := by
      rw [hlen, List.length_append]
      rfl
    rw [hlen', List.take_left, List.drop_left, ← List.append_assoc]
    exact .closed trivial hcontent
  · rw [hlen, List.take_length, List.drop_length]
    exact .cut trivial hbody

/-- **The first lexeme.** -/
theorem lexeme_front {cs : List Char} (hne : cs ≠ []) :
    Lexeme (front cs).1 (cs.take (front cs).2) (cs.drop (front cs).2) := by
  cases hm : markupAt cs with
  | none =>
    have hf : front cs = (.text, plainLength cs) := by simp [front, hm]
    rw [hf]
    exact lexeme_text hne hm
  | some state =>
    have hf : front cs = (state.kind, state.length cs) := by simp [front, hm]
    rw [hf]
    rcases markupAt_eq_some hm with ⟨rfl, c, rest, hc, rfl⟩ | ⟨rfl, rest, rfl⟩ | ⟨rfl, rest, rfl⟩
    · refine @lexeme_tag .startTag (c :: rest) rfl (by decide) ?_
      rintro content (rfl | ⟨after, h⟩)
      · exact ⟨c, rest, rfl, hc⟩
      · cases content with
        | nil =>
          cases h
          exact absurd hc (by decide)
        | cons d content =>
          cases h
          exact ⟨c, content, rfl, hc⟩
    · exact @lexeme_tag .endTag rest rfl (by decide) fun _ _ => trivial
    · exact lexeme_comment rest

/-! ## Requests -/

/-- The handler comes to the same when it searches and cuts bytes. -/
abbrev Exact : State → Cursor → Prop := Lexer.Exact handler handler?

abbrev Answers (state : State) (c : Cursor) (k : Nat) (r : Pull State Kind)
    (l : Lexer State Kind) : Prop :=
  Lexer.Answers Exact (lexerAt state c) k r l

theorem Meets.faces {state : State} {rest : List Char} (h : Meets state rest) :
    Faces state rest := by
  rcases h with rfl | h
  · trivial
  · rcases markupAt_eq_some h with ⟨rfl, -⟩ | ⟨rfl, -⟩ | ⟨rfl, rest, rfl⟩
    · trivial
    · trivial
    · exact ⟨rest, rfl⟩

theorem answers_emit {state state' : State} {c : Cursor} {kind : Kind} {n : Nat}
    (h : handler state (.ok c) = emit c kind n state') (hstate : state' ≠ .eof)
    (hm : Meets state c.rest) :
    Answers state c 1 (.token (c.token kind n)) (lexerAt state' (c.skip n)) :=
  Lexer.answers_token h (handler?_eq hm.faces) hstate

/-- One request takes the first lexeme off. -/
theorem answers_front {state : State} {c : Cursor} (hm : Meets state c.rest) (hne : c.rest ≠ []) :
    ∃ k ≤ 2, ∃ state', Meets state' (c.skip (front c.rest).2).rest ∧
      Answers state c k (.token (c.token (front c.rest).1 (front c.rest).2))
        (lexerAt state' (c.skip (front c.rest).2)) := by
  cases hmark : markupAt c.rest with
  | some mark =>
    have hf : front c.rest = (mark.kind, mark.length c.rest) := by simp [front, hmark]
    obtain ⟨hemit, hrank⟩ := handler_markup hmark
    have h := answers_emit hemit (by decide) (.inr hmark)
    rw [hf]
    rcases hm with rfl | hm
    · have hgoto : handler .text (.ok c) = goto c mark := text_markup hmark
      exact ⟨2, Nat.le_refl 2, .text, .inl rfl,
        Lexer.answers_silent hgoto (by rw [hrank]; decide) (handler?_eq (by trivial)) h⟩
    · obtain rfl : mark = state := by simpa [hmark] using hm
      exact ⟨1, by decide, .text, .inl rfl, h⟩
  | none =>
    obtain rfl : state = .text := by simpa [Meets, hmark] using hm
    have hf : front c.rest = (.text, plainLength c.rest) := by simp [front, hmark]
    have hpos := front_pos hne
    have hmeets := meets_getD (c.skip (plainLength c.rest)).rest
    rw [hf] at hpos ⊢
    exact ⟨1, by decide, _, hmeets, answers_emit (text_plain hpos) hmeets.ne_eof (.inl rfl)⟩

theorem lexed_cons {c : Cursor} {kind : Kind} {n : Nat} {ts : List (Token Kind)}
    (h : Lexeme kind (c.rest.take n) (c.rest.drop n)) (hts : Lexed (c.skip n) ts) :
    Lexed c (c.token kind n :: ts) := by
  obtain ⟨p, rest⟩ := c
  have := Lexed.cons h hts
  rwa [List.take_append_drop] at this

/-- **All requests.** They give out the lexemes that are left, and then the end. -/
theorem course_meets (n : Nat) : ∀ {state : State} {c : Cursor}, Meets state c.rest →
    c.rest.length < n → ∃ ts, Lexed c ts ∧ Lexer.Course Exact (lexerAt state c) ts
      (.token ⟨.eof, "", Text.byteSize c.source⟩) := by
  induction n with
  | zero => intro state c _ hn; omega
  | succ n ih =>
    intro state c hm hn
    by_cases hne : c.rest = []
    · obtain rfl : state = .text := by simpa [Meets, hne, markupAt, eq_comm] using hm
      obtain ⟨p, rest⟩ := c
      obtain rfl : rest = [] := hne
      have hemit : handler .text (.ok ⟨p, []⟩) = emit ⟨p, []⟩ .eof 0 .eof := rfl
      refine ⟨[], .nil, ?_⟩
      rw [Cursor.source, List.append_nil]
      exact .last (Nat.le_succ 1) (Lexer.answers_emit hemit (handler?_eq (by trivial))) rfl
    · obtain ⟨k, hk, state', hm', h⟩ := answers_front hm hne
      have hpos := front_pos hne
      have hlen := List.length_pos_iff.2 hne
      have hlt : (c.skip (front c.rest).2).rest.length < n := by
        simp only [Cursor.skip, List.length_drop]
        omega
      obtain ⟨ts, hts, hcourse⟩ := ih hm' hlt
      rw [Cursor.source_skip] at hcourse
      exact ⟨_, lexed_cons (lexeme_front hne) hts, .token hk h hcourse⟩

/-! ## What lexemes say -/

section

variable {kind : Kind} {value rest : List Char}

theorem delimited_closed (h : kind.closing ≠ []) (cs : List Char) :
    delimited kind (kind.opening ++ cs ++ kind.closing) = ⟨kind.opening, cs, kind.closing⟩ := by
  simp [delimited, h]

theorem delimited_cut {cs : List Char} (h : ¬kind.closing <:+: cs) :
    delimited kind (kind.opening ++ cs) = ⟨kind.opening, cs, []⟩ := by
  have hsuffix : ¬kind.closing <:+ cs := fun hs => h hs.isInfix
  simp [delimited, hsuffix]

/-- The delimiters that are taken off a lexeme are those that it was made with. -/
theorem Lexeme.chars_delimited (h : Lexeme kind value rest) :
    (delimited kind value).chars = value := by
  cases h with
  | text =>
    have h : delimited .text value = _ := parts_text value
    rw [h]
    simp [Delimited.chars]
  | closed hs => rw [delimited_closed hs.delimiters.2]; rfl
  | cut hs hno => rw [delimited_cut hno]; simp [Delimited.chars]

theorem Lexeme.not_infix_content (h : Lexeme kind value rest) (hkind : kind ≠ .text) :
    ¬kind.closing <:+: (delimited kind value).content := by
  cases h with
  | text => exact absurd rfl hkind
  | closed hs hno => rwa [delimited_closed hs.delimiters.2]
  | cut hs hno => rwa [delimited_cut hno]

theorem Lexeme.opening_prefix (h : Lexeme kind value rest) : kind.opening <+: value := by
  cases h with
  | text => exact List.nil_prefix
  | closed => exact ⟨_, (List.append_assoc _ _ _).symm⟩
  | cut => exact List.prefix_append _ _

theorem Lexeme.startTag (h : Lexeme .startTag value rest) :
    ∃ c : Char, c.isAlpha = true ∧ ['<', c] <+: value := by
  cases h with
  | closed hs =>
    obtain ⟨c, cs, rfl, hc⟩ := hs
    exact ⟨c, hc, _, rfl⟩
  | cut hs =>
    obtain ⟨c, cs, rfl, hc⟩ := hs
    exact ⟨c, hc, cs, rfl⟩

theorem Lexeme.text_opens (h : Lexeme .text value rest) {cs : List Char} (hcs : cs <:+ value) :
    ¬Opens cs := by
  cases h with
  | text _ hno =>
    obtain ⟨us, hus⟩ := hcs
    intro hopens
    refine hno us cs hus.symm (by rintro rfl; cases hopens) ?_
    -- More text behind the markup does not change that it begins.
    cases hopens with
    | startTag hc => exact .startTag hc
    | endTag => exact .endTag
    | comment => exact .comment
  | closed hs => exact hs.elim
  | cut hs => exact hs.elim

/-- The delimiter that a lexeme lacks is nowhere in the source behind its opening one. -/
theorem Lexeme.cut_iff (h : Lexeme kind value rest) (hkind : kind ≠ .text) :
    ∃ content, value = kind.opening ++ content ∧
      ((delimited kind value).closing = [] ↔ ¬kind.closing <:+: content ++ rest) ∧
      ((delimited kind value).closing = [] → rest = []) := by
  cases h with
  | text => exact absurd rfl hkind
  | @closed _ content _ hs =>
    have hclosing := hs.delimiters.2
    refine ⟨content ++ kind.closing, List.append_assoc _ _ _, ?_⟩
    rw [delimited_closed hclosing]
    have hin : kind.closing <:+: content ++ kind.closing ++ rest := ⟨content, rest, rfl⟩
    exact ⟨⟨fun h => absurd h hclosing, fun h => absurd hin h⟩, fun h => absurd h hclosing⟩
  | @cut _ content hs hno =>
    rw [delimited_cut hno]
    exact ⟨content, rfl, by simpa using hno, fun _ => rfl⟩

end

/-- The texts of tokens put together. -/
def spelling (ts : List (Token Kind)) : List Char := ts.flatMap (·.value.toList)

/-- **One token** among those that are left. -/
theorem Lexed.split {c : Cursor} {ts : List (Token Kind)} (h : Lexed c ts) :
    ∀ before t after, ts = before ++ t :: after → ∃ rest, Lexeme t.kind t.value.toList rest ∧
      c.rest = spelling before ++ t.value.toList ++ rest ∧
      t.offset = c.offset + Text.byteSize (spelling before) ∧
      Lexed ⟨c.passed ++ spelling before ++ t.value.toList, rest⟩ after := by
  induction h with
  | nil => intro before t after hts; simp at hts
  | @cons p value rest kind ts hlexeme hts ih =>
    intro before t after hsplit
    cases before with
    | nil =>
      cases hsplit
      refine ⟨rest, ?_, ?_, ?_, ?_⟩
      · rwa [String.toList_ofList]
      · simp [spelling]
      · simp [spelling, Cursor.offset]
      · simpa [spelling] using hts
    | cons u before =>
      cases hsplit
      obtain ⟨rest', hlexeme', hrest, hoffset, hafter⟩ := ih before t after rfl
      refine ⟨rest', hlexeme', ?_, ?_, ?_⟩
      · dsimp only at hrest
        simp [spelling, hrest]
      · simpa [spelling, Cursor.offset, Nat.add_assoc] using hoffset
      · simpa [spelling] using hafter

theorem Lexed.nil_of_rest {p : List Char} {ts : List (Token Kind)} (h : Lexed ⟨p, []⟩ ts) :
    ts = [] := by
  generalize hc : Cursor.mk p [] = c at h
  cases h with
  | nil => rfl
  | cons hlexeme _ =>
    have hnil := congrArg Cursor.rest hc
    exact absurd (List.append_eq_nil_iff.1 hnil.symm).1 hlexeme.ne_nil

theorem Lexed.spelling_eq {c : Cursor} {ts : List (Token Kind)} (h : Lexed c ts) :
    spelling ts = c.rest := by
  induction h with
  | nil => rfl
  | cons _ _ ih => simpa [spelling] using ih

/-- Where markup begins, or at the end, there is no text. -/
theorem Lexed.head_ne_text {c : Cursor} {ts : List (Token Kind)} (h : Lexed c ts)
    (hrest : c.rest = [] ∨ Opens c.rest) : ∀ t, ts.head? = some t → t.kind ≠ .text := by
  intro t ht hk
  cases h with
  | nil => cases ht
  | cons hlexeme _ =>
    cases ht
    cases hlexeme with
    | text hne hno =>
      rcases hrest with hnil | hopens
      · exact hne (List.append_eq_nil_iff.1 hnil).1
      · exact hno [] _ rfl hne hopens
    | closed hs =>
      cases hk
      exact hs.elim
    | cut hs =>
      cases hk
      exact hs.elim

theorem Lexed.apart {c : Cursor} {ts : List (Token Kind)} (h : Lexed c ts) :
    ts.IsChain fun t u => t.kind = .text → u.kind ≠ .text := by
  induction h with
  | nil => exact .nil
  | cons hlexeme hts ih =>
    refine List.isChain_cons.2 ⟨fun u hu hk => ?_, ih⟩
    dsimp only at hk
    subst hk
    cases hlexeme with
    | text _ _ hbehind => exact hts.head_ne_text hbehind u hu
    | closed hs => exact hs.elim
    | cut hs => exact hs.elim

/-- What the tokens of a source say about it. -/
structure Lossless (source : List Char) (ts : List (Token Kind)) : Prop where
  spelling_eq : spelling ts = source
  offset : ∀ before t after, ts = before ++ t :: after →
    t.offset = Text.byteSize (spelling before)
  text : ∀ t ∈ ts, t.kind = .text → ∀ cs, cs <:+ t.value.toList → ¬Opens cs
  apart : ts.IsChain fun t u => t.kind = .text → u.kind ≠ .text
  startTag : ∀ t ∈ ts, t.kind = .startTag →
    ∃ c : Char, c.isAlpha = true ∧ ['<', c] <+: t.value.toList
  opening : ∀ t ∈ ts, t.kind.opening <+: t.value.toList
  parts : ∀ t ∈ ts ++ [⟨.eof, "", Text.byteSize source⟩], t.delimited.chars = t.value.toList
  content : ∀ t ∈ ts, t.kind ≠ .text → ¬t.kind.closing <:+: t.delimited.content
  /-- A closing delimiter is missing if there is none in the rest of the source, and then the token
  is the last. -/
  cut : ∀ before t after, ts = before ++ t :: after → t.kind ≠ .text →
    ∃ behind, source = spelling before ++ t.kind.opening ++ behind ∧
      (t.delimited.closing = [] ↔ ¬t.kind.closing <:+: behind) ∧
      (t.delimited.closing = [] → after = [])

theorem lossless_of_lexed {source : List Char} {ts : List (Token Kind)}
    (h : Lexed (.ofSource source) ts) : Lossless source ts := by
  have hlexeme : ∀ t ∈ ts, ∃ rest, Lexeme t.kind t.value.toList rest := by
    intro t ht
    obtain ⟨before, after, rfl⟩ := List.append_of_mem ht
    obtain ⟨rest, hlexeme, -⟩ := h.split before t after rfl
    exact ⟨rest, hlexeme⟩
  refine ⟨h.spelling_eq, fun before t after hts => ?_, fun t ht hk cs hcs => ?_, h.apart,
    fun t ht hk => ?_, fun t ht => ?_, fun t ht => ?_, fun t ht hk => ?_,
    fun before t after hts hk => ?_⟩
  · obtain ⟨rest, -, -, hoffset, -⟩ := h.split before t after hts
    simpa [Cursor.ofSource, Cursor.offset] using hoffset
  · obtain ⟨rest, hl⟩ := hlexeme t ht
    rw [hk] at hl
    exact hl.text_opens hcs
  · obtain ⟨rest, hl⟩ := hlexeme t ht
    rw [hk] at hl
    exact hl.startTag
  · obtain ⟨rest, hl⟩ := hlexeme t ht
    exact hl.opening_prefix
  · rcases List.mem_append.1 ht with ht | ht
    · obtain ⟨rest, hl⟩ := hlexeme t ht
      exact hl.chars_delimited
    · rw [List.mem_singleton.1 ht]
      rfl
  · obtain ⟨rest, hl⟩ := hlexeme t ht
    exact hl.not_infix_content hk
  · obtain ⟨rest, hl, hsource, -, hafter⟩ := h.split before t after hts
    obtain ⟨cs, hvalue, hiff, hrest⟩ := hl.cut_iff hk
    refine ⟨cs ++ rest, ?_, hiff, fun hc => ?_⟩
    · rw [show source = _ from hsource, hvalue]
      simp only [List.append_assoc]
    · rw [hrest hc] at hafter
      exact hafter.nil_of_rest

/-- **Lossless.** The tokens of a source are the source cut in pieces, with the end behind them. -/
theorem tokens_lossless (source : String) : ∃ ts,
    (markupLexer source).Streams ts (.token ⟨.eof, "", source.utf8ByteSize⟩) ∧
      Lossless source.toList ts := by
  obtain ⟨ts, hts, hcourse⟩ :=
    course_meets (source.toList.length + 1) (c := .ofSource source.toList) (.inl rfl)
      (Nat.lt_succ_self _)
  refine ⟨ts, ?_, lossless_of_lexed hts⟩
  rw [← Text.byteSize_toList]
  exact hcourse.streams

end Stencil.Markup
