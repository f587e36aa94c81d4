import Mathlib.Data.List.Basic
import Stencil.Autoescape
import Stencil.Proofs.Markup.Segments
import Stencil.Proofs.Text.Reference

/-!
# What autoescaping makes of a text

A text is written as segments: one for each piece of its markup but for the comments, with its
content escaped.

Results:
* `escapeText_eq`: a text is always accepted, and written as `rewrite` says.
* `escaped_segments`, `closed_segments`: the segments of a text are clean, and a tag that is not
  closed is the last of them.
* `tagsOnly_rewrite`: in the text as it is written, angle brackets stand in tags only.
-/

namespace Stencil.Autoescape

open Stencil.Markup (Piece Segment IsTag Scan pieces marks scan_pieces)
open Stencil.Text (escapeChars rawSpecials)

/-- What a piece is written as. Comments are left out. -/
def segment? (p : Piece) : Option Segment :=
  match p.kind with
  | .text => some (.plain (escapeChars p.value))
  | .startTag | .endTag =>
    some (.tag p.kind (escapeChars p.parts.content) !p.parts.closing.isEmpty)
  | .comment | .eof => none

/-- What a text is written as. -/
def segments (text : String) : List Segment :=
  (pieces (text.toList.dropWhile (· = '\n'))).filterMap segment?

/-- A text as it is written. -/
def rewrite (text : String) : String := String.ofList ((segments text).flatMap Segment.chars)

/-- The place behind a segment. -/
def segmentContext : Context → Segment → Context
  | _, .plain _ => .text
  | _, .tag .startTag _ false => .tag
  | _, .tag _ _ _ => .text

theorem closing_cases (p : Piece) : p.parts.closing = p.kind.closing ∨ p.parts.closing = [] := by
  unfold Piece.parts Markup.delimited
  dsimp only
  split <;> simp

theorem opening_parts (p : Piece) : p.parts.opening = p.kind.opening := by
  unfold Piece.parts Markup.delimited
  dsimp only
  split <;> rfl

theorem chars_tag (p : Piece) (h : p.kind = .startTag ∨ p.kind = .endTag) :
    p.parts.opening ++ escapeChars p.parts.content ++ p.parts.closing =
      (Segment.tag p.kind (escapeChars p.parts.content) !p.parts.closing.isEmpty).chars := by
  have hk : p.kind.closing = ['>'] := by rcases h with h | h <;> rw [h] <;> rfl
  rw [opening_parts, Segment.chars]
  rcases closing_cases p with hc | hc <;> simp [hc, hk]

theorem escapedToken_eq (p : Piece) (offset : Nat) :
    escapedToken ⟨p.kind, String.ofList p.value, offset⟩ =
      (segment? p).toList.flatMap Segment.chars := by
  have hd : (Token.delimited ⟨p.kind, String.ofList p.value, offset⟩) = p.parts := by
    simp [Token.delimited, Piece.parts]
  obtain ⟨kind, value⟩ := p
  cases kind with
  | text => simp [escapedToken, hd, segment?, Segment.chars, Markup.parts_text]
  | startTag => simpa [escapedToken, hd, segment?] using chars_tag ⟨.startTag, value⟩ (.inl rfl)
  | endTag => simpa [escapedToken, hd, segment?] using chars_tag ⟨.endTag, value⟩ (.inr rfl)
  | comment => simp [escapedToken, segment?]
  | eof => simp [escapedToken, segment?]

theorem contextAfter_eq (c : Context) (p : Piece) (offset : Nat) :
    contextAfter c ⟨p.kind, String.ofList p.value, offset⟩ =
      (segment? p).toList.foldl segmentContext c := by
  have hd : (Token.delimited ⟨p.kind, String.ofList p.value, offset⟩) = p.parts := by
    simp [Token.delimited, Piece.parts]
  obtain ⟨kind, value⟩ := p
  cases kind with
  | text => simp [contextAfter, segment?, segmentContext]
  | startTag =>
    simp only [contextAfter, hd, segment?, Option.toList_some, List.foldl_cons, List.foldl_nil]
    cases (Piece.parts ⟨.startTag, value⟩).closing.isEmpty <;> rfl
  | endTag => simp [contextAfter, segment?, segmentContext]
  | comment => simp [contextAfter, segment?]
  | eof => simp [contextAfter, segment?]

theorem flatMap_place : ∀ (offset : Nat) (ps : List Piece),
    (Markup.place offset ps).flatMap escapedToken =
      (ps.filterMap segment?).flatMap Segment.chars
  | _, [] => rfl
  | offset, p :: ps => by
    rw [Markup.place, List.flatMap_cons, escapedToken_eq, flatMap_place]
    cases h : segment? p <;> simp [h]

theorem foldl_place : ∀ (offset : Nat) (ps : List Piece) (c : Context),
    (Markup.place offset ps).foldl contextAfter c =
      (ps.filterMap segment?).foldl segmentContext c
  | _, [], _ => rfl
  | offset, p :: ps, c => by
    rw [Markup.place, List.foldl_cons, contextAfter_eq, foldl_place]
    cases h : segment? p <;> simp [h]

/-- **Texts.** A text is never refused. -/
theorem escapeText_eq (c : Context) (text : String) :
    escapeText c text = .ok (rewrite text, (segments text).foldl segmentContext c) := by
  unfold escapeText markupOf
  rw [Markup.tokens_markupLexer, String.toList_ofList]
  simp only [Except.map, flatMap_place, foldl_place]
  rfl

example : escapeText .text "<!---->a'" = .ok ("a&#39;", .text) := by cbv

/-! ## Segments of a text -/

/-- The content has gone through `escapeChars`. -/
def Escaped : Segment → Prop
  | .plain cs => ∃ ds, cs = escapeChars ds
  | .tag kind cs _ => IsTag kind cs ∧ ∃ ds, cs = escapeChars ds

theorem Escaped.clean {s : Segment} (h : Escaped s) : s.Clean := by
  cases s with
  | plain cs =>
    obtain ⟨ds, rfl⟩ := h
    exact ⟨Text.not_mem_escapeChars (by decide) ds, Text.not_mem_escapeChars (by decide) ds⟩
  | tag kind cs closed => exact h.1

theorem escapeChar_letter {c : Char} (h : c.isAlpha = true) : Text.escapeChar c = [c] := by
  have hne : ∀ d : Char, d.isAlpha = false → c ≠ d := by rintro d hd rfl; simp [h] at hd
  simp [Text.escapeChar, Text.reference?, hne '&' (by decide), hne '\'' (by decide),
    hne '<' (by decide), hne '>' (by decide), hne '"' (by decide), hne '\r' (by decide)]

theorem isTag_escapeChars {kind : Markup.Kind} {cs : List Char} (h : IsTag kind cs) :
    IsTag kind (escapeChars cs) := by
  have hgt : ∀ ds, '>' ∉ escapeChars ds := Text.not_mem_escapeChars (by decide)
  cases h with
  | @startTag c cs hc _ =>
    have hcons : escapeChars (c :: cs) = c :: escapeChars cs := by
      simp [escapeChars, escapeChar_letter hc]
    have := hgt (c :: cs)
    rw [hcons] at this ⊢
    exact .startTag hc this
  | endTag _ => exact .endTag (hgt cs)

theorem segment?_tag {kind : Markup.Kind} {cs : List Char} (h : IsTag kind cs) (closed : Bool) :
    segment? ⟨kind, (Segment.tag kind cs closed).chars⟩ =
      some (.tag kind (escapeChars cs) closed) := by
  have hk : segment? ⟨kind, (Segment.tag kind cs closed).chars⟩ =
      some (.tag kind (escapeChars (Piece.parts ⟨kind, (Segment.tag kind cs closed).chars⟩).content)
        !(Piece.parts ⟨kind, (Segment.tag kind cs closed).chars⟩).closing.isEmpty) := by
    cases h <;> rfl
  rw [hk]
  cases closed with
  | true => simp only [Segment.chars, if_true, Markup.parts_closedTag h]; rfl
  | false =>
    simp only [Segment.chars, Bool.false_eq_true, if_false, List.append_nil,
      Markup.parts_openTag h]
    rfl

theorem mem_dropLast_cons {α : Type} {x y : α} {xs : List α} (h : y ∈ (x :: xs).dropLast) :
    y = x ∨ y ∈ xs.dropLast := by
  cases xs <;> simp_all

/-- What the pieces of a text are written as, and which of it may be open. -/
theorem segments_of_scan {cs : List Char} {ps : List Piece} (h : Scan cs ps) :
    (∀ s ∈ ps.filterMap segment?, Escaped s) ∧
      ∀ s ∈ (ps.filterMap segment?).dropLast, s.closed = true := by
  have cons : ∀ {s : Segment} {ss : List Segment}, Escaped s → s.closed = true →
      ((∀ t ∈ ss, Escaped t) ∧ ∀ t ∈ ss.dropLast, t.closed = true) →
      (∀ t ∈ s :: ss, Escaped t) ∧ ∀ t ∈ (s :: ss).dropLast, t.closed = true := by
    rintro s ss hs hc ⟨h1, h2⟩
    refine ⟨List.forall_mem_cons.2 ⟨hs, h1⟩, fun t ht => ?_⟩
    rcases mem_dropLast_cons ht with rfl | ht
    · exact hc
    · exact h2 t ht
  induction h with
  | nil => simp
  | text _ _ ih => exact cons ⟨_, rfl⟩ rfl ih
  | closedTag ht _ ih =>
    have hs := segment?_tag ht true
    simp only [Segment.chars, if_true] at hs
    rw [List.filterMap_cons_some hs]
    exact cons ⟨isTag_escapeChars ht, _, rfl⟩ rfl ih
  | openTag ht =>
    have hs := segment?_tag ht false
    simp only [Segment.chars, Bool.false_eq_true, if_false, List.append_nil] at hs
    rw [List.filterMap_cons_some hs]
    refine ⟨fun s h => ?_, by simp⟩
    obtain rfl := List.mem_singleton.1 h
    exact ⟨isTag_escapeChars ht, _, rfl⟩
  | comment _ ih => exact ih

theorem escaped_segments (text : String) : ∀ s ∈ segments text, Escaped s :=
  (segments_of_scan (scan_pieces _)).1

theorem closed_segments (text : String) : ∀ s ∈ (segments text).dropLast, s.closed = true :=
  (segments_of_scan (scan_pieces _)).2

/-! ## The tag in which a text ends -/

theorem open_of_scan {cs : List Char} {ps : List Piece} (h : Scan cs ps) :
    ∀ kind content, Segment.tag kind content false ∈ ps.filterMap segment? →
      ps.getLast?.bind Piece.open? = some kind := by
  have cons : ∀ {p : Piece} {ps : List Piece} {kind : Markup.Kind} {content : List Char},
      segment? p ≠ some (.tag kind content false) →
      (Segment.tag kind content false ∈ ps.filterMap segment? →
        ps.getLast?.bind Piece.open? = some kind) →
      Segment.tag kind content false ∈ (p :: ps).filterMap segment? →
        (p :: ps).getLast?.bind Piece.open? = some kind := by
    intro p ps kind content hp ih hs
    simp only [List.mem_filterMap, List.mem_cons, exists_eq_or_imp] at hs ih
    -- The segment comes from a later piece, so the last piece is a later one too.
    have ih := ih (hs.resolve_left hp)
    cases ps with
    | nil => cases ih
    | cons q ps => rwa [List.getLast?_cons_cons]
  induction h with
  | nil => simp
  | text _ _ ih => exact fun kind content => cons (by simp [segment?]) (ih kind content)
  | closedTag ht _ ih =>
    intro kind content
    have hs := segment?_tag ht true
    simp only [Segment.chars, if_true] at hs
    exact cons (by rw [hs]; simp) (ih kind content)
  | openTag ht =>
    intro kind content hmem
    have hs := segment?_tag ht false
    simp only [Segment.chars, Bool.false_eq_true, if_false, List.append_nil] at hs
    simp only [List.filterMap_cons, hs, List.filterMap_nil, List.mem_singleton,
      Segment.tag.injEq] at hmem
    simp [Piece.open?, Markup.parts_openTag ht, ht.kind_ne.1, hmem.1]
  | comment _ ih => exact fun kind content => cons (by simp [segment?]) (ih kind content)

theorem not_mem_lineEnds (text : String) : '<' ∉ text.toList.takeWhile (· = '\n') := by
  intro h
  simpa using List.all_eq_true.1 List.all_takeWhile _ h

/-- A text is written with an open tag only if it ends in one of that kind. -/
theorem openTag_of_segments {text : String} {kind : Markup.Kind} {content : List Char}
    (h : Segment.tag kind content false ∈ segments text) :
    Markup.openTag text.toList = some kind := by
  have hopen := open_of_scan (scan_pieces _) kind content h
  rw [← List.takeWhile_append_dropWhile (p := (· = '\n')) (l := text.toList),
    Markup.openTag_plain (not_mem_lineEnds text)]
  exact hopen

theorem behind_of_closed {ss : List Segment} (h : ∀ s ∈ ss, s.closed = true)
    (k : Option Markup.Kind) :
    ss.foldl Segment.behind k = k ∨ ss.foldl Segment.behind k = none := by
  induction ss generalizing k with
  | nil => exact .inl rfl
  | cons s ss ih =>
    obtain ⟨hs, hss⟩ := List.forall_mem_cons.1 h
    rw [List.foldl_cons]
    cases s with
    | plain cs => exact ih hss k
    | tag kind content closed =>
      simp only [Segment.closed] at hs
      subst hs
      exact .inr ((ih hss _).elim id id)

/-- A start tag that is open behind a text was open before it, or is the place behind it. -/
theorem context_of_behind {text : String} {k : Option Markup.Kind}
    (h : (segments text).foldl Segment.behind k = some .startTag) (hk : k ≠ some .startTag)
    (c : Context) : (segments text).foldl segmentContext c = .tag := by
  have hclosed := closed_segments text
  rcases List.eq_nil_or_concat (segments text) with hs | ⟨init, last, hs⟩
  · rw [hs] at h
    exact absurd h hk
  · rw [List.concat_eq_append] at hs
    rw [hs, List.dropLast_concat] at hclosed
    rw [hs, List.foldl_append] at h ⊢
    have hinit : init.foldl Segment.behind k ≠ some .startTag := by
      rcases behind_of_closed hclosed k with hi | hi <;> simp [hi, hk]
    generalize init.foldl Segment.behind k = m at h hinit
    cases last with
    | plain cs => exact absurd h hinit
    | tag kind content closed =>
      cases closed with
      | true => cases m <;> cases h
      | false =>
        cases m with
        | none => cases h; rfl
        | some k => exact absurd h hinit

/-! ## Special characters -/

/-- No comment, and nothing special but in delimiters. -/
def Tidy (p : Piece) : Prop := p.kind ≠ .comment ∧ ∀ c ∈ p.parts.content, c ∉ rawSpecials

theorem not_mem_rawSpecials (ds : List Char) : ∀ c ∈ escapeChars ds, c ∉ rawSpecials :=
  fun _ hc hr => Text.not_mem_escapeChars hr ds hc

theorem tidy_plain (ds : List Char) {rest : List Char} (h : ∀ p ∈ pieces rest, Tidy p) :
    ∀ p ∈ pieces (escapeChars ds ++ rest), Tidy p := by
  by_cases hne : escapeChars ds = []
  · rwa [hne]
  obtain ⟨v, ps, hp, hr⟩ := Markup.pieces_plain_cases hne
    (Text.not_mem_escapeChars (by decide) ds) rest
  have hv : ∀ c ∈ v, c ∉ rawSpecials := by
    rcases hr with ⟨rfl, -⟩ | hr
    · simp
    · have := (h ⟨.text, v⟩ (by simp [hr])).2
      rwa [Markup.parts_text] at this
  rw [hp]
  refine List.forall_mem_cons.2 ⟨⟨by simp, ?_⟩, ?_⟩
  · rw [Markup.parts_text]
    intro c hc
    rcases List.mem_append.1 hc with hc | hc
    · exact not_mem_rawSpecials ds c hc
    · exact hv c hc
  · rcases hr with ⟨-, hr⟩ | hr
    · rwa [← hr]
    · exact fun p hp => h p (by simp [hr, hp])

theorem tidy_segment {s : Segment} (hs : Escaped s) {rest : List Char}
    (hc : s.closed = true ∨ rest = []) (h : ∀ p ∈ pieces rest, Tidy p) :
    ∀ p ∈ pieces (s.chars ++ rest), Tidy p := by
  cases s with
  | plain cs =>
    obtain ⟨ds, rfl⟩ := hs
    exact tidy_plain ds h
  | tag kind cs closed =>
    obtain ⟨ht, ds, hds⟩ := hs
    cases closed with
    | true =>
      have hp := Markup.pieces_closedTag ht rest
      simp only [Segment.chars, if_true, List.append_assoc, List.cons_append,
        List.nil_append] at hp ⊢
      rw [hp]
      refine List.forall_mem_cons.2 ⟨⟨ht.kind_ne.2.1, ?_⟩, h⟩
      have := Markup.parts_closedTag ht
      simp only [List.append_assoc] at this
      rw [this, hds]
      exact not_mem_rawSpecials ds
    | false =>
      obtain rfl : rest = [] := by simpa [Segment.closed] using hc
      simp only [Segment.chars, Bool.false_eq_true, if_false, List.append_nil]
      rw [Markup.pieces_openTag ht]
      refine List.forall_mem_cons.2 ⟨⟨ht.kind_ne.2.1, ?_⟩, by simp⟩
      rw [Markup.parts_openTag ht, hds]
      exact not_mem_rawSpecials ds

theorem tidy_segments : ∀ {ss : List Segment}, (∀ s ∈ ss, Escaped s) →
    (∀ s ∈ ss.dropLast, s.closed = true) → ∀ p ∈ pieces (ss.flatMap Segment.chars), Tidy p
  | [], _, _ => by simp
  | s :: ss, h, hc => by
    have ih := tidy_segments (fun t ht => h t (List.mem_cons_of_mem _ ht)) fun t ht =>
      hc t (by cases ss <;> simp_all)
    refine tidy_segment (h s List.mem_cons_self) ?_ ih
    cases ss with
    | nil => exact .inr rfl
    | cons t ss => exact .inl (hc s (by simp))

/-- The tokens of a source are texts and tags, and special characters other than `&` stand in the
delimiters of its tags only. -/
def TagsOnly (source : String) : Prop :=
  ∃ ts, (markupLexer source).tokens = .ok ts ∧
    source.toList = ts.flatMap (·.delimited.chars) ∧
    ∀ t ∈ ts, t.kind ≠ .comment ∧ ∀ c ∈ t.delimited.content, c ∉ rawSpecials

theorem mem_place : ∀ {offset : Nat} {ps : List Piece} {t : Token Markup.Kind},
    t ∈ Markup.place offset ps →
      (t.kind = .eof ∧ t.value = "") ∨ ∃ p ∈ ps, t.kind = p.kind ∧ t.delimited = p.parts
  | _, [], t, h => by
    obtain rfl := List.mem_singleton.1 h
    exact .inl ⟨rfl, rfl⟩
  | _, p :: ps, t, h => by
    rcases List.mem_cons.1 h with rfl | h
    · exact .inr ⟨p, by simp, rfl, by simp [Token.delimited, Piece.parts]⟩
    · rcases mem_place h with h | ⟨q, hq, h⟩
      · exact .inl h
      · exact .inr ⟨q, by simp [hq], h⟩

theorem flatMap_chars_place : ∀ (offset : Nat) (ps : List Piece),
    (Markup.place offset ps).flatMap (·.delimited.chars) = ps.flatMap (·.parts.chars)
  | _, [] => rfl
  | offset, p :: ps => by
    have hd : (Token.delimited ⟨p.kind, String.ofList p.value, offset⟩) = p.parts := by
      simp [Token.delimited, Piece.parts]
    rw [Markup.place, List.flatMap_cons, List.flatMap_cons, flatMap_chars_place, hd]

theorem tagsOnly_rewrite (text : String) : TagsOnly (rewrite text) := by
  have htidy := tidy_segments (escaped_segments text) (closed_segments text)
  have hlist : (rewrite text).toList = (segments text).flatMap Segment.chars := by simp [rewrite]
  refine ⟨_, Markup.tokens_markupLexer _, ?_, ?_⟩
  · rw [hlist, flatMap_chars_place]
    have hscan := scan_pieces ((segments text).flatMap Segment.chars)
    have hparts : ∀ p ∈ pieces ((segments text).flatMap Segment.chars), p.parts.chars = p.value :=
      fun p hp => Markup.chars_parts hscan p hp (htidy p hp).1
    rw [List.flatMap_congr hparts]
    exact (Markup.flatMap_value hscan).symm
  · rw [hlist]
    intro t ht
    rcases mem_place ht with ⟨hk, hv⟩ | ⟨p, hp, hk, hd⟩
    · rw [hk]
      simp [Token.delimited, hk, hv, Markup.delimited, Markup.Kind.closing]
    · rw [hk, hd]
      exact htidy p hp

end Stencil.Autoescape
