import Stencil.Proofs.Markup.Pieces

/-!
# Markup put together from segments

A `Segment` is a stretch of text without `<` and `>`, or a tag. Reading a text that is put together
from segments gives back its tags, whatever the stretches of text are: a stretch merges with the
text around it, and a tag that is not closed goes on to the next closed one.

Results:
* `endsIn_iff`: a source ends inside a tag if the last of its pieces is one that is not closed.
* `resume_segments`: the tag in which a text ends depends on the tags among its segments only.
* `marks_append`: the pieces of segments but for the texts are the tags among the segments.
-/

namespace Stencil.Markup

/-! ## The parts of a piece -/

def Piece.parts (p : Piece) : Delimited := delimited p.kind p.value

theorem parts_text (cs : List Char) : (Piece.mk .text cs).parts = ⟨[], cs, []⟩ := by
  simp [Piece.parts, delimited, Kind.opening, Kind.closing]

theorem IsTag.closing_eq {kind : Kind} {cs : List Char} (h : IsTag kind cs) :
    kind.closing = ['>'] := by
  cases h <;> rfl

theorem IsTag.kind_ne {kind : Kind} {cs : List Char} (h : IsTag kind cs) :
    kind ≠ .text ∧ kind ≠ .comment ∧ kind ≠ .eof := by
  cases h <;> decide

theorem parts_closedTag {kind : Kind} {cs : List Char} (h : IsTag kind cs) :
    (Piece.mk kind (kind.opening ++ cs ++ ['>'])).parts = ⟨kind.opening, cs, ['>']⟩ := by
  simp [Piece.parts, delimited, h.closing_eq]

theorem parts_openTag {kind : Kind} {cs : List Char} (h : IsTag kind cs) :
    (Piece.mk kind (kind.opening ++ cs)).parts = ⟨kind.opening, cs, []⟩ := by
  have hsuffix : ¬['>'] <:+ cs := fun hs => h.not_mem (hs.subset (List.mem_singleton_self _))
  simp [Piece.parts, delimited, h.closing_eq, hsuffix]

/-- The parts of a piece put together. -/
def Delimited.chars (d : Delimited) : List Char := d.opening ++ d.content ++ d.closing

theorem chars_parts {cs : List Char} {ps : List Piece} (h : Scan cs ps) :
    ∀ p ∈ ps, p.kind ≠ .comment → p.parts.chars = p.value := by
  induction h with
  | nil => simp
  | text _ _ ih =>
    refine List.forall_mem_cons.2 ⟨fun _ => ?_, ih⟩
    rw [parts_text]
    simp [Delimited.chars]
  | closedTag ht _ ih =>
    refine List.forall_mem_cons.2 ⟨fun _ => ?_, ih⟩
    rw [parts_closedTag ht]
    rfl
  | openTag ht =>
    refine List.forall_mem_cons.2 ⟨fun _ => ?_, by simp⟩
    rw [parts_openTag ht]
    simp [Delimited.chars]
  | comment _ ih => exact List.forall_mem_cons.2 ⟨fun h => absurd rfl h, ih⟩

/-! ## The tag in which a text ends -/

/-- The kind of a piece that goes on until something closes it. -/
def Piece.open? (p : Piece) : Option Kind :=
  if p.kind ≠ .text ∧ p.parts.closing = [] then some p.kind else none

/-- The kind of the markup in which a text ends. -/
def openTag (cs : List Char) : Option Kind := (pieces cs).getLast?.bind Piece.open?

/-- The last token of a source before its end is of a kind, and nothing closes it. -/
def EndsIn (kind : Kind) (source : String) : Prop :=
  ∃ ts t e, (markupLexer source).tokens = .ok (ts ++ [t, e]) ∧ t.kind = kind ∧
    t.delimited.closing = []

theorem place_concat (p : Piece) : ∀ (offset : Nat) (ps : List Piece), ∃ ts m n,
    place offset (ps ++ [p]) = ts ++ [⟨p.kind, String.ofList p.value, m⟩, ⟨.eof, "", n⟩]
  | offset, [] => ⟨[], _, _, rfl⟩
  | offset, q :: ps => by
    obtain ⟨ts, m, n, h⟩ := place_concat p (offset + Text.byteSize q.value) ps
    exact ⟨⟨q.kind, String.ofList q.value, offset⟩ :: ts, m, n, by simp [place, h]⟩

theorem endsIn_iff {kind : Kind} (hk : kind ≠ .text) (source : String) :
    EndsIn kind source ↔ openTag source.toList = some kind := by
  unfold EndsIn openTag
  rw [tokens_markupLexer]
  rcases List.eq_nil_or_concat (pieces source.toList) with h | ⟨ps, p, h⟩
  · have hplace : ∀ ts t e, place 0 [] ≠ ts ++ [t, e] := by
      intro ts t e hp
      have := congrArg List.length hp
      simp [place] at this
    simp [h, hplace]
  · obtain ⟨ts, m, n, hp⟩ := place_concat p 0 ps
    simp only [List.concat_eq_append] at h
    rw [h, hp]
    have hparts : (Token.delimited ⟨p.kind, String.ofList p.value, m⟩) = p.parts := by
      simp [Token.delimited, Piece.parts]
    constructor
    · rintro ⟨us, t, e, he, rfl, hc⟩
      simp only [Except.ok.injEq] at he
      have hlast := List.append_inj_right' he rfl
      simp only [List.cons.injEq] at hlast
      obtain ⟨rfl, -⟩ := hlast
      rw [hparts] at hc
      simp [Piece.open?, hc, hk]
    · intro ho
      simp only [List.getLast?_append, List.getLast?_singleton, Option.some_or, Option.bind_some,
        Piece.open?, Option.ite_none_right_eq_some, Option.some.injEq] at ho
      exact ⟨ts, _, _, rfl, ho.2, by rw [hparts]; exact ho.1.2⟩

/-! ## Texts in front of markup -/

/-- A text without `<` merges with the text behind it, and leaves the other pieces alone. -/
theorem pieces_plain_cases {cs : List Char} (hne : cs ≠ []) (h : '<' ∉ cs) (rest : List Char) :
    ∃ v ps, pieces (cs ++ rest) = ⟨.text, cs ++ v⟩ :: ps ∧
      (v = [] ∧ pieces rest = ps ∨ pieces rest = ⟨.text, v⟩ :: ps) := by
  refine ⟨_, _, pieces_plain hne h rest, ?_⟩
  cases hm : plainLength rest with
  | zero => left; simp
  | succ n =>
    right
    have hrest : rest ≠ [] := by rintro rfl; simp [plainLength] at hm
    have hmark : markupAt rest = none := by
      cases hk : markupAt rest with
      | none => rfl
      | some state => simp [plainLength_of_markup hk] at hm
    rw [pieces_of_ne_nil hrest]
    simp only [front, hmark, hm]

/-- The pieces that are no text. -/
def marks (cs : List Char) : List Piece := (pieces cs).filter (·.kind ≠ .text)

theorem marks_plain {cs : List Char} (h : '<' ∉ cs) (rest : List Char) :
    marks (cs ++ rest) = marks rest := by
  by_cases hne : cs = []
  · simp [hne]
  obtain ⟨v, ps, hp, ⟨-, hr⟩ | hr⟩ := pieces_plain_cases hne h rest <;> simp [marks, hp, hr]

theorem marks_closedTag {kind : Kind} {cs : List Char} (h : IsTag kind cs) (rest : List Char) :
    marks (kind.opening ++ cs ++ '>' :: rest) =
      ⟨kind, kind.opening ++ cs ++ ['>']⟩ :: marks rest := by
  rw [marks, pieces_closedTag h, List.filter_cons_of_pos (by simp [h.kind_ne.1])]
  rfl

theorem marks_openTag {kind : Kind} {cs : List Char} (h : IsTag kind cs) :
    marks (kind.opening ++ cs) = [⟨kind, kind.opening ++ cs⟩] := by
  simp [marks, pieces_openTag h, h.kind_ne.1]

theorem openTag_plain {cs : List Char} (h : '<' ∉ cs) (rest : List Char) :
    openTag (cs ++ rest) = openTag rest := by
  by_cases hne : cs = []
  · simp [hne]
  obtain ⟨v, ps, hp, ⟨-, hr⟩ | hr⟩ := pieces_plain_cases hne h rest
  all_goals cases ps <;> simp [openTag, hp, hr, List.getLast?_cons, Piece.open?]

theorem openTag_closedTag {kind : Kind} {cs : List Char} (h : IsTag kind cs) (rest : List Char) :
    openTag (kind.opening ++ cs ++ '>' :: rest) = openTag rest := by
  have hparts := parts_closedTag h
  rw [openTag, openTag, pieces_closedTag h]
  cases pieces rest with
  | nil => simp only [List.getLast?_singleton, Option.bind_some, Piece.open?, hparts]; simp
  | cons p ps => rw [List.getLast?_cons_cons]

theorem openTag_openTag {kind : Kind} {cs : List Char} (h : IsTag kind cs) :
    openTag (kind.opening ++ cs) = some kind := by
  simp [openTag, pieces_openTag h, Piece.open?, parts_openTag h, h.kind_ne.1]

/-! ## Segments -/

inductive Segment where
  /-- Text without angle brackets. -/
  | plain (cs : List Char)
  | tag (kind : Kind) (content : List Char) (closed : Bool)

namespace Segment

def chars : Segment → List Char
  | plain cs => cs
  | tag kind content closed => kind.opening ++ content ++ if closed then ['>'] else []

def Clean : Segment → Prop
  | plain cs => '<' ∉ cs ∧ '>' ∉ cs
  | tag kind content _ => IsTag kind content

/-- The segment is no tag that is left open. -/
def closed : Segment → Bool
  | plain _ => true
  | tag _ _ closed => closed

/-- The piece that a tag is read as. -/
def mark? : Segment → Option Piece
  | plain _ => none
  | tag kind content closed => some ⟨kind, (tag kind content closed).chars⟩

/-- The tag that is open behind a segment, by the one that is open before it. -/
def behind : Option Kind → Segment → Option Kind
  | k, plain _ => k
  | _, tag _ _ true => none
  | none, tag kind _ false => some kind
  | some k, tag _ _ false => some k

end Segment

theorem marks_segment {s : Segment} (hs : s.Clean) (hc : s.closed = true) (rest : List Char) :
    marks (s.chars ++ rest) = s.mark?.toList ++ marks rest := by
  cases s with
  | plain cs => exact marks_plain hs.1 rest
  | tag kind content closed =>
    simp only [Segment.closed] at hc
    subst hc
    simpa [Segment.chars, Segment.mark?] using marks_closedTag hs rest

theorem marks_lastSegment {s : Segment} (hs : s.Clean) : marks s.chars = s.mark?.toList := by
  cases hc : s.closed with
  | true => simpa [marks] using marks_segment hs hc []
  | false =>
    cases s with
    | plain cs => cases hc
    | tag kind content closed =>
      simp only [Segment.closed] at hc
      subst hc
      simpa [Segment.chars, Segment.mark?] using marks_openTag hs

/-- Closed segments are read apart from what follows them. -/
theorem marks_append : ∀ {ss : List Segment}, (∀ s ∈ ss, s.Clean ∧ s.closed = true) →
    ∀ rest, marks (ss.flatMap Segment.chars ++ rest) = ss.filterMap Segment.mark? ++ marks rest
  | [], _, rest => by simp
  | s :: ss, h, rest => by
    have hs := h s List.mem_cons_self
    have ih := marks_append (fun t ht => h t (List.mem_cons_of_mem _ ht)) rest
    rw [List.flatMap_cons, List.append_assoc, marks_segment hs.1 hs.2, ih]
    cases hm : s.mark? <;> simp [hm]

/-- Segments of which the last may be open. -/
theorem marks_segments {ss : List Segment} (h : ∀ s ∈ ss, s.Clean)
    (hc : ∀ s ∈ ss.dropLast, s.closed = true) :
    marks (ss.flatMap Segment.chars) = ss.filterMap Segment.mark? := by
  rcases List.eq_nil_or_concat ss with rfl | ⟨init, s, rfl⟩
  · simp [marks]
  · simp only [List.concat_eq_append, List.dropLast_concat, List.mem_append,
      List.mem_singleton] at h hc
    have hinit := marks_append (fun t ht => ⟨h t (.inl ht), hc t ht⟩) s.chars
    simp only [List.concat_eq_append, List.flatMap_append, List.flatMap_cons, List.flatMap_nil,
      List.append_nil]
    rw [hinit, marks_lastSegment (h s (.inr rfl))]
    cases hm : s.mark? <;> simp [hm]

/-! ## The tag that is open behind segments -/

/-- The tag in which a text ends that comes behind an open tag, or behind none. -/
def resume : Option Kind → List Char → Option Kind
  | none, cs => openTag cs
  | some k, cs => if '>' ∈ cs then openTag (cs.drop (tagLength cs)) else some k

theorem resume_nil (k : Option Kind) : resume k [] = k := by
  cases k <;> simp [resume, openTag]

theorem resume_close (k : Kind) {cs : List Char} (h : '>' ∉ cs) (rest : List Char) :
    resume (some k) (cs ++ '>' :: rest) = openTag rest := by
  have hdrop : (cs ++ '>' :: rest).drop (cs.length + 1) = rest := by
    rw [List.drop_length_add_append]; rfl
  simp [resume, tagLength_append h, hdrop]

theorem resume_inside (k : Kind) {cs : List Char} (h : '>' ∉ cs) (rest : List Char) :
    resume (some k) (cs ++ rest) = resume (some k) rest := by
  by_cases hr : '>' ∈ rest
  · obtain ⟨body, rest, rfl, hb⟩ := List.eq_append_cons_of_mem hr
    rw [← List.append_assoc, resume_close k (by simp [h, hb]), resume_close k hb]
  · simp [resume, h, hr]

theorem IsTag.append {kind : Kind} {cs ds : List Char} (h : IsTag kind cs) (hd : '>' ∉ ds) :
    IsTag kind (cs ++ ds) := by
  cases h with
  | startTag hc hn => exact .startTag hc (by simp_all)
  | endTag hn => exact .endTag (by simp_all)

/-- What follows an open tag belongs to it up to the first `>`. -/
theorem openTag_append {kind : Kind} {cs : List Char} (h : IsTag kind cs) (rest : List Char) :
    openTag (kind.opening ++ cs ++ rest) = resume (some kind) rest := by
  by_cases hr : '>' ∈ rest
  · obtain ⟨body, rest, rfl, hb⟩ := List.eq_append_cons_of_mem hr
    rw [resume_close kind hb, ← openTag_closedTag (h.append hb) rest]
    simp
  · have := openTag_openTag (h.append hr)
    simpa [resume, hr] using this

/-- **One segment.** A segment is read the same whatever follows it. -/
theorem resume_segment {s : Segment} (hs : s.Clean) (k : Option Kind) (rest : List Char) :
    resume k (s.chars ++ rest) = resume (s.behind k) rest := by
  cases s with
  | plain cs =>
    cases k with
    | none => exact openTag_plain hs.1 rest
    | some k => exact resume_inside k hs.2 rest
  | tag kind content closed =>
    have hs' : IsTag kind content := hs
    cases closed with
    | true =>
      cases k with
      | none => simpa [resume, Segment.chars, Segment.behind] using openTag_closedTag hs' rest
      | some k =>
        simpa [resume, Segment.chars, Segment.behind] using
          resume_close k hs'.not_mem_opening rest
    | false =>
      cases k with
      | none => simpa [resume, Segment.chars, Segment.behind] using openTag_append hs' rest
      | some k =>
        simpa [Segment.chars, Segment.behind] using resume_inside k hs'.not_mem_opening rest

/-- **Segments.** The tag that is open behind them is found by going through them one by one. -/
theorem resume_segments : ∀ {ss : List Segment}, (∀ s ∈ ss, s.Clean) → ∀ k rest,
    resume k (ss.flatMap Segment.chars ++ rest) = resume (ss.foldl Segment.behind k) rest
  | [], _, _, _ => rfl
  | s :: ss, h, k, rest => by
    have ih := resume_segments (fun t ht => h t (List.mem_cons_of_mem _ ht)) (s.behind k) rest
    rw [List.flatMap_cons, List.append_assoc, resume_segment (h s List.mem_cons_self), ih]
    rfl

end Stencil.Markup
