import Stencil.Proofs.Token.Cuts
import Stencil.Proofs.Token.Stream

/-!
# Template text as a tiling

The tokens of template text lie one behind the other. Outside of actions there is nothing between
them, inside only blanks. `Tiles` says so of tokens from one place of the source to another, and
`course_between` follows the lexer from request to request and finds its tokens to be such.

Results:
* `course_between`: the requests from a state between two tokens give tokens that tile the source,
  up to its end or up to an error.
* `tokens_tile`: the tokens of a whole text.
-/

namespace Stencil.Action

open Stencil.Grammar

/-! ## Words and gaps -/

/-- A text that can be a token of a kind. -/
inductive Word : Kind → List Char → Prop where
  | text {cs : List Char} : cs ≠ [] → Plain cs → Word .text cs
  | leftDelim : Word .leftDelim opening
  | rightDelim : Word .rightDelim closing
  | pipe : Word .pipe ['|']
  | field {name : List Char} : name ≠ [] → (∀ c ∈ name, isNameChar c = true) →
    Word .field ('.' :: name)
  | identifier {first : Char} {name : List Char} : isNameStart first = true →
    (∀ c ∈ name, isNameChar c = true) → Word .identifier (first :: name)

/-- The word is as long as it can be in front of `rest`: a text goes on up to the first opening
delimiter, and a name up to something that is in no name. -/
def Maximal (word rest : List Char) : Kind → Prop
  | .text => rest = [] ∨ Piece word ∧ opening <+: rest
  | .field | .identifier => NameEnds rest
  | .leftDelim | .rightDelim | .pipe | .eof => True

/-- Where a token of a kind may be: text and the opening delimiter outside of an action, all others
inside. -/
def fits (inside : Bool) : Kind → Bool
  | .text | .leftDelim => !inside
  | .rightDelim | .pipe | .field | .identifier => inside
  | .eof => false

/-- Whether an action is open behind a token. -/
def opens (inside : Bool) : Kind → Bool
  | .leftDelim => true
  | .rightDelim => false
  | .text | .pipe | .field | .identifier | .eof => inside

/-- What may be in front of a token without being part of one. -/
structure Gap (inside : Bool) (cs : List Char) : Prop where
  blank : ∀ c ∈ cs, isBlank c = true
  outside : inside = false → cs = []

/-- Tokens, and nothing but gaps in front of them, from one place of a source to another. The flags
say whether an action is open there. -/
inductive Tiles : Bool → Cursor → List (Token Kind) → Bool → Cursor → Prop where
  | nil {inside : Bool} {c : Cursor} : Tiles inside c [] inside c
  | token {inside inside' : Bool} {p gap word rest : List Char} {kind : Kind}
    {ts : List (Token Kind)} {c : Cursor} : Gap inside gap → Word kind word →
    Maximal word rest kind → fits inside kind = true →
    Tiles (opens inside kind) ⟨p ++ gap ++ word, rest⟩ ts inside' c →
    Tiles inside ⟨p, gap ++ word ++ rest⟩
      (⟨kind, String.ofList word, Text.byteSize (p ++ gap)⟩ :: ts) inside' c

/-- The front of the text is nothing that an action may go on with. -/
structure Stuck (cs : List Char) : Prop where
  blank : ∀ c, cs.head? = some c → isBlank c = false
  word : ∀ kind word, Word kind word → fits true kind = true → ¬word <+: cs

/-- Behind a gap there is nothing that an action may go on with, and the error is about that. -/
inductive Stops (c : Cursor) : Error → Prop where
  | mk {gap rest : List Char} : c.rest = gap ++ rest → Gap true gap → Stuck rest →
    Stops c ((Cursor.mk (c.passed ++ gap) rest).error
      (if rest = [] then "unclosed action" else "unrecognized character in action"))

/-- How the requests behind a token come to an end. -/
inductive Ends : Bool → Cursor → Pull State Kind → Prop where
  | eof {p : List Char} : Ends false ⟨p, []⟩ (.token ⟨.eof, "", Text.byteSize p⟩)
  | failed {c : Cursor} {e : Error} : Stops c e → Ends true c (.failed e)

/-! ## Words of a tiling -/

theorem Word.ne_nil {kind : Kind} {word : List Char} (h : Word kind word) : word ≠ [] := by
  cases h with
  | text hne _ => exact hne
  | leftDelim | rightDelim | pipe | field | identifier => exact List.cons_ne_nil _ _

theorem stuck_nil : Stuck [] :=
  ⟨by simp, fun _ _ h _ hp => h.ne_nil (List.prefix_nil.1 hp)⟩

theorem stuck_of_stray {c : Char} {cs : List Char} (h : Stray c cs) : Stuck (c :: cs) where
  blank d hd := by
    cases hd
    exact h.blank
  word kind word hword hfits hp := by
    cases hword with
    | text | leftDelim => cases hfits
    | rightDelim =>
      obtain ⟨rest, hrest⟩ := hp
      cases hrest
      exact h.closing rfl rfl
    | pipe =>
      obtain ⟨rest, hrest⟩ := hp
      cases hrest
      exact h.pipe rfl
    | @field name hne hname =>
      obtain ⟨d, name, rfl⟩ := List.exists_cons_of_ne_nil hne
      obtain ⟨rest, hrest⟩ := hp
      cases hrest
      have := h.field rfl d rfl
      rw [hname d List.mem_cons_self] at this
      cases this
    | identifier hstart =>
      obtain ⟨rest, hrest⟩ := hp
      cases hrest
      rw [h.identifier] at hstart
      cases hstart

theorem takeWhile_gap {gap rest : List Char} (hgap : Gap true gap) (hstuck : Stuck rest) :
    (gap ++ rest).takeWhile isBlank = gap := by
  have hrest : rest.takeWhile isBlank = [] := by
    cases rest with
    | nil => rfl
    | cons c cs => simp [hstuck.blank c rfl]
  rw [List.takeWhile_append_of_pos hgap.blank, hrest, List.append_nil]

/-! ## Requests -/

/-- The handler comes to the same when it searches and cuts bytes. -/
abbrev Exact : State → Cursor → Prop := Lexer.Exact handler handler?

/-- The lexer is between two tokens. -/
inductive Between : Bool → State → List Char → Prop where
  | text {rest : List Char} : Between false .text rest
  | leftDelim {rest : List Char} : Between false .leftDelim (opening ++ rest)
  | inside {rest : List Char} : Between true .inside rest

theorem Between.ne_eof {inside : Bool} {state : State} {rest : List Char}
    (h : Between inside state rest) : state ≠ .eof := by
  cases h <;> decide

abbrev Answers (state : State) (c : Cursor) (k : Nat) (r : Pull State Kind)
    (l : Lexer State Kind) : Prop :=
  Lexer.Answers Exact (lexerAt state c) k r l

variable {state state' : State} {c c' : Cursor} {kind : Kind} {p word rest : List Char}

theorem answers_word (h : handler state (.ok c) =
      emit ⟨p, word ++ rest⟩ kind word.length state') (hstate : state' ≠ .eof)
    (hfaces : Faces state c.rest) :
    Answers state c 1 (.token ⟨kind, String.ofList word, Text.byteSize p⟩)
      (lexerAt state' ⟨p ++ word, rest⟩) := by
  have : Answers state c 1 (.token (Cursor.token ⟨p, word ++ rest⟩ kind word.length))
      (lexerAt state' (Cursor.skip ⟨p, word ++ rest⟩ word.length)) :=
    Lexer.answers_token h (handler?_eq hfaces) hstate
  simpa [Cursor.token, Cursor.offset, Cursor.skip] using this

theorem answers_goto {k : Nat} {r : Pull State Kind} {l : Lexer State Kind}
    (h : handler state (.ok c) = goto c' state') (hr : rank state' < rank state)
    (hfaces : Faces state c.rest) (hnext : Answers state' c' k r l) :
    Answers state c (k + 1) r l :=
  Lexer.answers_silent h hr (handler?_eq hfaces) hnext

/-- What one request does: it takes a word off the text, with the gap before it, or it is the
last. -/
inductive Request (inside : Bool) (state : State) : Cursor → Prop where
  | token {p gap word rest : List Char} {kind : Kind} {k : Nat} {state' : State} : Gap inside gap →
    Word kind word → Maximal word rest kind → fits inside kind = true →
    Between (opens inside kind) state' rest → k ≤ 2 →
    Answers state ⟨p, gap ++ word ++ rest⟩ k
      (.token ⟨kind, String.ofList word, Text.byteSize (p ++ gap)⟩)
      (lexerAt state' ⟨p ++ gap ++ word, rest⟩) →
    Request inside state ⟨p, gap ++ word ++ rest⟩
  | last {c : Cursor} {k : Nat} {r : Pull State Kind} {l : Lexer State Kind} : Ends inside c r →
    k ≤ 2 → Answers state c k r l → l.finished = true → Request inside state c

theorem gap_nil (inside : Bool) : Gap inside [] := ⟨by simp, fun _ => rfl⟩

/-- A word without a gap. -/
theorem request_word {inside : Bool} {k : Nat} (hword : Word kind word)
    (hmaximal : Maximal word rest kind) (hfits : fits inside kind = true)
    (hbetween : Between (opens inside kind) state' rest) (hk : k ≤ 2)
    (h : Answers state ⟨p, word ++ rest⟩ k (.token ⟨kind, String.ofList word, Text.byteSize p⟩)
      (lexerAt state' ⟨p ++ word, rest⟩)) : Request inside state ⟨p, word ++ rest⟩ := by
  have := @Request.token inside state p [] word rest kind k state' (gap_nil inside) hword hmaximal
    hfits hbetween hk (by rw [List.append_nil]; exact h)
  exact this

theorem answers_leftDelim : Answers .leftDelim ⟨p, opening ++ rest⟩ 1
    (.token ⟨.leftDelim, String.ofList opening, Text.byteSize p⟩)
    (lexerAt .inside ⟨p ++ opening, rest⟩) :=
  answers_word rfl (by decide) ⟨rest, rfl⟩

theorem request_leftDelim : Request false .leftDelim ⟨p, opening ++ rest⟩ :=
  request_word .leftDelim trivial rfl .inside (by decide) answers_leftDelim

theorem request_text (p rest : List Char) : Request false .text ⟨p, rest⟩ := by
  rcases split_piece rest with hlast | ⟨piece, rest, hpiece, rfl⟩
  · have h : handler .text (.ok ⟨p, rest⟩) = _ := text_last p hlast
    by_cases hne : rest = []
    · subst hne
      exact .last .eof (by decide) (Lexer.answers_emit h (handler?_eq (by trivial))) rfl
    · have hemit : handler .text (.ok ⟨p, rest ++ []⟩) =
          emit ⟨p, rest ++ []⟩ .text rest.length .text := by
        rw [List.append_nil, h, if_neg hne]
      rw [← List.append_nil rest]
      exact request_word (.text hne hlast) (.inl rfl) rfl .text (by decide)
        (answers_word hemit (by decide) (by trivial))
  · have h : handler .text (.ok ⟨p, piece ++ opening ++ rest⟩) = _ := text_action p hpiece rest
    rw [List.append_assoc] at h ⊢
    by_cases hne : piece = []
    · subst hne
      show Request false .text ⟨p, opening ++ rest⟩
      exact request_word .leftDelim trivial rfl .inside (Nat.le_refl 2)
        (answers_goto h (by decide) (by trivial) answers_leftDelim)
    · rw [if_neg hne] at h
      have hplain := (piece_iff.1 hpiece).1
      exact request_word (.text hne hplain) (.inr ⟨hpiece, rest, rfl⟩) rfl .leftDelim (by decide)
        (answers_word h (by decide) (by trivial))

theorem inside_gap : ∀ {gap : List Char}, (∀ c ∈ gap, isBlank c = true) → ∀ p cs : List Char,
    inside ⟨p, gap ++ cs⟩ = inside ⟨p ++ gap, cs⟩
  | [], _, p, cs => by simp
  | b :: gap, h, p, cs => by
    have ih := inside_gap (fun c hc => h c (List.mem_cons_of_mem b hc)) (p ++ [b]) cs
    rw [List.cons_append, inside_blank p (h b List.mem_cons_self), ih, List.append_assoc]
    rfl

/-- A term is emitted in a state of its own. -/
theorem answers_term {t : Node} (ht : Term word t) (hends : NameEnds rest)
    (h : ∀ state, inside ⟨p, word ++ rest⟩ = goto ⟨p, word ++ rest⟩ state →
      handler .inside (.ok c) = goto ⟨p, word ++ rest⟩ state) :
    ∃ kind, Word kind word ∧ Maximal word rest kind ∧ fits true kind = true ∧
      opens true kind = true ∧ Answers .inside c 2
        (.token ⟨kind, String.ofList word, Text.byteSize p⟩)
        (lexerAt .inside ⟨p ++ word, rest⟩) := by
  cases ht with
  | @field name hne hname =>
    refine ⟨.field, .field hne hname, hends, rfl, rfl, ?_⟩
    exact answers_goto (h _ (inside_field p hne hname hends)) (by decide) (by trivial)
      (answers_word (handler_field p hname hends) (by decide) ⟨name ++ rest, rfl⟩)
  | @identifier first name hfirst hname =>
    refine ⟨.identifier, .identifier hfirst hname, hends, rfl, rfl, ?_⟩
    exact answers_goto (h _ (inside_identifier p hfirst _)) (by decide) (by trivial)
      (answers_word (handler_identifier p hfirst hname hends) (by decide) (by trivial))

theorem request_inside (p rest : List Char) : Request true .inside ⟨p, rest⟩ := by
  obtain ⟨gap, cs, rfl, hgap, hblank⟩ : ∃ gap cs, rest = gap ++ cs ∧ Gap true gap ∧
      ∀ c, cs.head? = some c → isBlank c = false := by
    refine ⟨rest.takeWhile isBlank, rest.dropWhile isBlank,
      List.takeWhile_append_dropWhile.symm, ⟨?_, by simp⟩, fun c hc => ?_⟩
    · exact fun c hc => List.all_eq_true.1 List.all_takeWhile c hc
    · have := List.head?_dropWhile_not isBlank rest
      rwa [hc] at this
  have hskip : handler .inside (.ok ⟨p, gap ++ cs⟩) = inside ⟨p ++ gap, cs⟩ :=
    inside_gap hgap.blank p cs
  cases front cs with
  | @blank b cs hb =>
    rw [hblank b rfl] at hb
    cases hb
  | pipe cs =>
    have hemit : handler .inside (.ok ⟨p, gap ++ (['|'] ++ cs)⟩) =
        emit ⟨p ++ gap, ['|'] ++ cs⟩ .pipe ['|'].length .inside :=
      hskip.trans (inside_pipe (p ++ gap) cs)
    have h := answers_word hemit (by decide) (by trivial)
    rw [← List.append_assoc] at h
    have := Request.token hgap .pipe trivial rfl .inside (by decide) h
    rwa [List.append_assoc] at this
  | @term word rest t ht hends =>
    obtain ⟨kind, hword, hmaximal, hfits, hopens, h⟩ := answers_term ht hends
      fun state hs => hskip.trans hs
    rw [← List.append_assoc] at h ⊢
    exact .token hgap hword hmaximal hfits (by rw [hopens]; exact .inside) (Nat.le_refl 2) h
  | stop hstop =>
    cases hstop with
    | nil =>
      have hfail := hskip.trans (inside_nil (p ++ gap))
      exact .last (.failed (.mk rfl hgap stuck_nil)) (by decide)
        (Lexer.answers_fail hfail (handler?_eq (by trivial))) rfl
    | closing rest =>
      have hgoto := hskip.trans (inside_closing (p ++ gap) rest)
      have hemit : handler .rightDelim (.ok ⟨p ++ gap, closing ++ rest⟩) =
          emit ⟨p ++ gap, closing ++ rest⟩ .rightDelim closing.length .text := rfl
      have h := answers_goto hgoto (by decide) (by trivial)
        (answers_word hemit (by decide) ⟨rest, rfl⟩)
      rw [← List.append_assoc] at h ⊢
      exact .token hgap .rightDelim trivial rfl .text (Nat.le_refl 2) h
    | @stray b cs hstray =>
      have hfail := hskip.trans (inside_stray (p ++ gap) hstray)
      exact .last (.failed (.mk rfl hgap (stuck_of_stray hstray))) (by decide)
        (Lexer.answers_fail hfail (handler?_eq (by trivial))) rfl

theorem request {inside : Bool} {state : State} {c : Cursor} (h : Between inside state c.rest) :
    Request inside state c := by
  obtain ⟨p, rest⟩ := c
  cases h with
  | text => exact request_text p rest
  | leftDelim => exact request_leftDelim
  | inside => exact request_inside p rest

/-- **All requests.** From a state between two tokens, the tokens that the requests give tile the
source, up to where the last request comes to an end. -/
theorem course_between (n : Nat) : ∀ {inside : Bool} {state : State} {c : Cursor},
    Between inside state c.rest → c.rest.length < n → ∃ ts last inside' c',
      Lexer.Course Exact (lexerAt state c) ts last ∧ Tiles inside c ts inside' c' ∧
        Ends inside' c' last := by
  induction n with
  | zero => intro inside state c _ hn; omega
  | succ n ih =>
    intro inside state c hb hn
    cases request hb with
    | last hends hk h hfin => exact ⟨[], _, inside, c, .last hk h hfin, .nil, hends⟩
    | @token p gap word rest kind k state' hgap hword hmaximal hfits hnext hk h =>
      have hpos := List.length_pos_iff.2 hword.ne_nil
      have hlt : rest.length < n := by
        simp only [List.length_append] at hn
        omega
      obtain ⟨ts, last, inside', c', hcourse, htiles, hends⟩ :=
        ih (c := ⟨p ++ gap ++ word, rest⟩) hnext hlt
      exact ⟨_, last, inside', c', .token hk h hcourse,
        .token hgap hword hmaximal hfits htiles, hends⟩

/-! ## What a tiling says -/

section

variable {inside inside' : Bool} {c c' : Cursor} {ts : List (Token Kind)}

theorem Tiles.source_eq (h : Tiles inside c ts inside' c') : c'.source = c.source := by
  induction h with
  | nil => rfl
  | token _ _ _ _ _ ih => simpa [Cursor.source] using ih

theorem Tiles.increasing (h : Tiles inside c ts inside' c') :
    (∀ o ∈ ts.map Token.offset ++ [c'.offset], c.offset ≤ o) ∧
      (ts.map Token.offset ++ [c'.offset]).Pairwise (· < ·) := by
  induction h with
  | nil => simp
  | @token _ _ p gap word _ _ ts _ _ hword _ _ _ ih =>
    obtain ⟨hle, hpairwise⟩ := ih
    have hpos := Text.byteSize_pos hword.ne_nil
    simp only [Cursor.offset, Text.byteSize_append] at hle
    simp only [List.map_cons, List.cons_append, List.forall_mem_cons, List.pairwise_cons,
      Cursor.offset, Text.byteSize_append]
    refine ⟨⟨by omega, fun o ho => ?_⟩, fun o ho => ?_, hpairwise⟩
    · have := hle o ho
      omega
    · have := hle o ho
      omega

/-- A token is where its offset says, and as long as it can be there. -/
def Stands (source : List Char) (t : Token Kind) : Prop :=
  ∃ before after, source = before ++ t.value.toList ++ after ∧ t.offset = Text.byteSize before ∧
    Word t.kind t.value.toList ∧ Maximal t.value.toList after t.kind

theorem Tiles.stands (h : Tiles inside c ts inside' c') : ∀ t ∈ ts, Stands c.source t := by
  induction h with
  | nil => simp
  | @token _ _ p gap word rest _ _ _ _ hword hmaximal _ _ ih =>
    refine List.forall_mem_cons.2 ⟨⟨p ++ gap, rest, ?_, rfl, ?_, ?_⟩, ?_⟩
    · simp [Cursor.source]
    · rwa [String.toList_ofList]
    · rwa [String.toList_ofList]
    · simpa [Cursor.source] using ih

/-- At an opening delimiter there is no text, nor at the end of the source. -/
theorem Tiles.head_ne_text (h : Tiles false c ts inside' c')
    (hrest : c.rest = [] ∨ opening <+: c.rest) : ∀ t, ts.head? = some t → t.kind ≠ .text := by
  intro t ht hk
  cases h with
  | nil => cases ht
  | @token _ _ p gap word rest kind ts _ hgap hword hmaximal _ _ =>
    cases ht
    dsimp only at hk hrest
    subst hk
    rw [hgap.outside rfl, List.nil_append] at hrest
    cases hword with
    | text hne hplain =>
      rcases hrest with hnil | hopens
      · exact hne (List.append_eq_nil_iff.1 hnil).1
      rcases hmaximal with rfl | ⟨hpiece, after, rfl⟩
      · rw [List.append_nil] at hopens
        exact hplain hopens.isInfix
      · rw [← List.append_assoc] at hopens
        exact hpiece (prefix_piece hne hopens).isInfix

theorem Tiles.apart (h : Tiles inside c ts inside' c') :
    ts.IsChain fun t u => t.kind = .text → u.kind ≠ .text := by
  induction h with
  | nil => exact .nil
  | @token inside _ p gap word rest kind ts _ _ hword hmaximal hfits htiles ih =>
    refine List.isChain_cons.2 ⟨fun u hu hk => ?_, ih⟩
    dsimp only at hk
    subst hk
    have hinside : inside = false := by simpa [fits] using hfits
    subst hinside
    exact htiles.head_ne_text (hmaximal.imp_right And.right) u hu

end

/-- What the tokens in front of a place say of the source. -/
structure Tiling (source : List Char) (ts : List (Token Kind)) (inside : Bool) (c : Cursor) :
    Prop where
  /-- With the gaps they are all that is in front of the place. -/
  tiles : Tiles false (.ofSource source) ts inside c
  source_eq : c.source = source
  increasing : (ts.map Token.offset ++ [c.offset]).Pairwise (· < ·)
  stands : ∀ t ∈ ts, Stands source t
  apart : ts.IsChain fun t u => t.kind = .text → u.kind ≠ .text

theorem tiling_of_tiles {source : List Char} {ts : List (Token Kind)} {inside : Bool} {c : Cursor}
    (h : Tiles false (.ofSource source) ts inside c) : Tiling source ts inside c where
  tiles := h
  source_eq := h.source_eq
  increasing := h.increasing.2
  stands := h.stands
  apart := h.apart

/-- The error is about the byte `o` of the source: with a last gap, the tokens in front of `c` are
all that is before it, and nothing that an action may go on with is at it. -/
structure FailsAt (source : List Char) (c : Cursor) (e : Error) (o : Nat) (gap rest : List Char)
    (message : String) : Prop where
  split : Text.splitBytes? o source = some (c.passed ++ gap, rest)
  blank : Gap true gap
  stuck : Stuck rest
  error : e = .make .lex message [("line", toString (Text.positionAt source o).line),
    ("column", toString (Text.positionAt source o).column),
    ("near", Text.quoted (String.ofList (rest.take 12)))]
  unclosed : message = "unclosed action" ↔ o = Text.byteSize source
  unrecognized : message = "unrecognized character in action" ↔ o ≠ Text.byteSize source

theorem failsAt_of_stops {source : List Char} {c : Cursor} {e : Error} (h : Stops c e)
    (hc : c.source = source) : ∃! o, ∃ gap rest message, FailsAt source c e o gap rest message := by
  subst hc
  cases h with
  | @mk gap rest hrest hgap hstuck =>
    have hsource : c.source = c.passed ++ gap ++ rest := by
      rw [Cursor.source, hrest, List.append_assoc]
    have hend : rest = [] ↔ Text.byteSize (c.passed ++ gap) = Text.byteSize c.source := by
      rw [hsource, Text.byteSize_append _ rest]
      constructor
      · rintro rfl
        rfl
      · intro h
        by_contra hne
        have := Text.byteSize_pos hne
        omega
    refine ⟨Text.byteSize (c.passed ++ gap), ⟨gap, rest, if rest = [] then "unclosed action"
      else "unrecognized character in action", ?_, hgap, hstuck, ?_, ?_, ?_⟩, ?_⟩
    · rw [hsource, Text.splitBytes?_append]
    · rw [hsource, Text.positionAt_append]
      rfl
    · rw [← hend]
      split <;> simp_all
    · rw [Ne, ← hend]
      split <;> simp_all
    · rintro o ⟨gap', rest', message, h⟩
      obtain ⟨hsplit, ho⟩ := Text.splitBytes?_eq_some_iff.1 h.split
      have hboth : gap ++ rest = gap' ++ rest' := by
        rw [hsource, List.append_assoc, List.append_assoc] at hsplit
        exact List.append_cancel_left hsplit
      rw [← ho, ← takeWhile_gap hgap hstuck, ← takeWhile_gap h.blank h.stuck, hboth]

/-- **Tiles.** The tokens of a text lie one behind the other, with nothing between them outside of
actions and blanks inside. They go up to the end of the text, or up to an error, which is about the
first byte behind them that is no blank. -/
theorem tokens_tile (source : String) : ∃ ts last inside c,
    (actionLexer source).Streams ts last ∧ Tiling source.toList ts inside c ∧
      ((last = .token ⟨.eof, "", source.utf8ByteSize⟩ ∧ inside = false ∧
          c = ⟨source.toList, []⟩) ∨
        ∃ e, last = .failed e ∧ inside = true ∧
          ∃! o, ∃ gap rest message, FailsAt source.toList c e o gap rest message) := by
  obtain ⟨ts, last, inside, c, hcourse, htiles, hends⟩ :=
    course_between (source.toList.length + 1) (c := .ofSource source.toList) .text
      (Nat.lt_succ_self _)
  have htiling := tiling_of_tiles htiles
  refine ⟨ts, last, inside, c, hcourse.streams, htiling, ?_⟩
  cases hends with
  | @eof p =>
    obtain rfl : p = source.toList := by simpa [Cursor.source] using htiling.source_eq
    exact .inl ⟨by rw [Text.byteSize_toList], rfl, rfl⟩
  | failed hstops =>
    exact .inr ⟨_, rfl, rfl, failsAt_of_stops hstops htiling.source_eq⟩

end Stencil.Action
