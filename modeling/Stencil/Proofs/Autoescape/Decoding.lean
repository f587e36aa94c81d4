import Mathlib
import Stencil.Proofs.Autoescape.Structure
import Stencil.Proofs.Text.Decode

/-!
# What is lost of a text that is escaped

When the references in an escaped text are read, the text is back, but for its comments and the line
ends at its front. Its tags are still tags: each one is closed if it was, and has its content
escaped.

Both are found piece by piece, as a piece of the text is written as a segment. The segment is
decoded apart from what follows it, and it is a tag if the piece is one.

Results:
* `decode_rewrite`: the escaped text, decoded.
* `tagParts_rewrite`: the tags of the escaped text.
* `escapeText_decodes`: both, in terms of tokens.
-/

namespace Stencil.Autoescape

open Stencil.Markup (Delimited IsTag Kind Piece Scan Segment marks pieces scan_pieces)
open Stencil.Text (decode decodeChars escapeChars escapeHtml)

/-! ## Comments -/

/-- What is left of tokens without the comments. -/
def uncommented (ts : List (Token Kind)) : String :=
  String.join ((ts.filter (·.kind ≠ .comment)).map (·.value))

/-- What is left of pieces without the comments. -/
def uncommentedChars (ps : List Piece) : List Char :=
  (ps.filter (·.kind ≠ .comment)).flatMap (·.value)

theorem uncommented_place : ∀ (offset : Nat) (ps : List Piece),
    (uncommented (Markup.place offset ps)).toList = uncommentedChars ps
  | _, [] => rfl
  | offset, p :: ps => by
    have ih := uncommented_place (offset + Text.byteSize p.value) ps
    unfold uncommented uncommentedChars at ih ⊢
    by_cases hk : p.kind = .comment
    · simpa [Markup.place, hk] using ih
    · simpa [Markup.place, hk] using ih

/-- A text without `<` at the front of a source is no part of a comment. -/
theorem uncommentedChars_plain {cs : List Char} (h : '<' ∉ cs) (rest : List Char) :
    uncommentedChars (pieces (cs ++ rest)) = cs ++ uncommentedChars (pieces rest) := by
  by_cases hne : cs = []
  · simp [hne]
  obtain ⟨v, ps, hp, ⟨rfl, hr⟩ | hr⟩ := Markup.pieces_plain_cases hne h rest
  · simp [uncommentedChars, hp, hr]
  · simp [uncommentedChars, hp, hr]

/-! ## Decoding -/

theorem decodeChars_tag (kind : Kind) (content : List Char) (closed : Bool) (ds : List Char) :
    decodeChars ((Segment.tag kind (escapeChars content) closed).chars ++ ds) =
      (Segment.tag kind content closed).chars ++ decodeChars ds := by
  have hopening : '&' ∉ kind.opening := by cases kind <;> decide
  have hclosing : '&' ∉ if closed then ['>'] else [] := by cases closed <;> decide
  simp only [Segment.chars, List.append_assoc]
  rw [Text.decodeChars_plain hopening, Text.decodeChars_escapeChars,
    Text.decodeChars_plain hclosing]

/-- What the pieces of a text are written as is decoded piece by piece. -/
theorem decode_of_scan {cs : List Char} {ps : List Piece} (h : Scan cs ps) :
    decodeChars ((ps.filterMap segment?).flatMap Segment.chars) = uncommentedChars ps := by
  induction h with
  | nil => rfl
  | @text cs rest ps _ _ ih =>
    have hs : segment? ⟨.text, cs⟩ = some (.plain (escapeChars cs)) := rfl
    have hrest : uncommentedChars (⟨.text, cs⟩ :: ps) = cs ++ uncommentedChars ps := rfl
    rw [List.filterMap_cons_some hs, List.flatMap_cons, Segment.chars,
      Text.decodeChars_escapeChars, ih, hrest]
  | @closedTag kind cs rest ps ht _ ih =>
    have hs := segment?_tag ht true
    have hrest : uncommentedChars (⟨kind, (Segment.tag kind cs true).chars⟩ :: ps) =
        (Segment.tag kind cs true).chars ++ uncommentedChars ps := by
      simp [uncommentedChars, ht.kind_ne.2.1]
    have hchars : (Segment.tag kind cs true).chars = kind.opening ++ cs ++ ['>'] := rfl
    rw [← hchars, List.filterMap_cons_some hs, List.flatMap_cons, decodeChars_tag, ih, hrest]
  | @openTag kind cs ht =>
    have hs := segment?_tag ht false
    have hdecode := decodeChars_tag kind cs false []
    have hchars : (Segment.tag kind cs false).chars = kind.opening ++ cs := by
      simp [Segment.chars]
    rw [hchars] at hs hdecode
    rw [List.append_nil] at hdecode
    simp [uncommentedChars, ht.kind_ne.2.1, hs, hdecode, decodeChars]
  | comment _ ih => exact ih

theorem decode_rewrite (text : String) :
    text.toList.takeWhile (· = '\n') ++ (decode (rewrite text)).toList =
      uncommentedChars (pieces text.toList) := by
  have hdecode := decode_of_scan (scan_pieces (text.toList.dropWhile (· = '\n')))
  have hplain := uncommentedChars_plain (not_mem_lineEnds text) (text.toList.dropWhile (· = '\n'))
  rw [List.takeWhile_append_dropWhile] at hplain
  rw [Text.toList_decode, toList_rewrite, segments, hdecode, hplain]

/-! ## Tags -/

/-- Kind and parts of each tag. -/
def tagParts (ts : List (Token Kind)) : List (Kind × Delimited) :=
  (ts.filter fun t => t.kind = .startTag ∨ t.kind = .endTag).map fun t => (t.kind, t.delimited)

/-- A tag with its content escaped. -/
def escapedParts : Kind × Delimited → Kind × Delimited
  | (kind, d) => (kind, { d with content := (escapeHtml (String.ofList d.content)).toList })

/-- A piece as its kind and parts. -/
def parted (p : Piece) : Kind × Delimited := (p.kind, p.parts)

theorem tagParts_place (offset : Nat) (ps : List Piece) :
    tagParts (Markup.place offset ps) = (tagPieces ps).map parted := by
  have h := congrArg (List.map fun m => (m.1, Markup.delimited m.1 m.2.toList))
    (tags_place offset ps)
  simp only [List.map_map, Function.comp_def, outlined, String.toList_ofList] at h
  exact h

theorem tagPieces_plain {cs : List Char} (h : '<' ∉ cs) (rest : List Char) :
    tagPieces (pieces (cs ++ rest)) = tagPieces (pieces rest) := by
  by_cases hne : cs = []
  · simp [hne]
  obtain ⟨v, ps, hp, ⟨-, hr⟩ | hr⟩ := Markup.pieces_plain_cases hne h rest
  · simp [tagPieces, hp, hr]
  · simp [tagPieces, hp, hr]

theorem parted_tag {kind : Kind} {content : List Char} (h : IsTag kind content) (closed : Bool) :
    parted ⟨kind, (Segment.tag kind content closed).chars⟩ =
      (kind, ⟨kind.opening, content, if closed then ['>'] else []⟩) := by
  cases closed with
  | true => simpa [parted, Segment.chars] using Markup.parts_closedTag h
  | false => simpa [parted, Segment.chars] using Markup.parts_openTag h

theorem parted_escapedTag {kind : Kind} {content : List Char} (h : IsTag kind content)
    (closed : Bool) :
    parted ⟨kind, (Segment.tag kind (escapeChars content) closed).chars⟩ =
      escapedParts (parted ⟨kind, (Segment.tag kind content closed).chars⟩) := by
  rw [parted_tag (isTag_escapeChars h), parted_tag h, escapedParts, Text.toList_escapeHtml,
    String.toList_ofList]

/-- The tags that pieces are written as are the tags among them, with their contents escaped. -/
def KeepsTags (ps : List Piece) : Prop :=
  ((ps.filterMap segment?).filterMap Segment.mark?).map parted =
    ((tagPieces ps).map parted).map escapedParts

theorem KeepsTags.tag {kind : Kind} {content : List Char} {ps : List Piece} (hps : KeepsTags ps)
    (h : IsTag kind content) (closed : Bool) :
    KeepsTags (⟨kind, (Segment.tag kind content closed).chars⟩ :: ps) := by
  have hmark : (Segment.tag kind (escapeChars content) closed).mark? =
      some ⟨kind, (Segment.tag kind (escapeChars content) closed).chars⟩ := rfl
  have htags : tagPieces (⟨kind, (Segment.tag kind content closed).chars⟩ :: ps) =
      ⟨kind, (Segment.tag kind content closed).chars⟩ :: tagPieces ps :=
    List.filter_cons_of_pos (by simpa using kind_of_isTag h)
  unfold KeepsTags at hps ⊢
  rw [List.filterMap_cons_some (segment?_tag h closed), List.filterMap_cons_some hmark, htags,
    List.map_cons, List.map_cons, List.map_cons, hps, parted_escapedTag h]

theorem keepsTags_of_scan {cs : List Char} {ps : List Piece} (h : Scan cs ps) : KeepsTags ps := by
  induction h with
  | nil => rfl
  | text _ _ ih => exact ih
  | closedTag ht _ ih => exact ih.tag ht true
  | openTag ht =>
    have hnil : KeepsTags [] := rfl
    simpa [Segment.chars] using hnil.tag ht false
  | comment _ ih => exact ih

theorem tagParts_rewrite (text : String) :
    (tagPieces (pieces (rewrite text).toList)).map parted =
      ((tagPieces (pieces text.toList)).map parted).map escapedParts := by
  have hplain := tagPieces_plain (not_mem_lineEnds text) (text.toList.dropWhile (· = '\n'))
  rw [List.takeWhile_append_dropWhile] at hplain
  rw [tagPieces_rewrite, hplain]
  exact keepsTags_of_scan (scan_pieces _)

/-! ## Tokens -/

theorem place_init : ∀ (offset : Nat) (ps : List Piece), ∃ init n,
    Markup.place offset ps = init ++ [⟨.eof, "", n⟩] ∧ ∀ t ∈ init, ∃ p ∈ ps, t.kind = p.kind
  | offset, [] => ⟨[], offset, rfl, by simp⟩
  | offset, p :: ps => by
    obtain ⟨init, n, hplace, hinit⟩ := place_init (offset + Text.byteSize p.value) ps
    refine ⟨⟨p.kind, String.ofList p.value, offset⟩ :: init, n, by rw [Markup.place, hplace]; rfl,
      List.forall_mem_cons.2 ⟨⟨p, by simp, rfl⟩, fun t ht => ?_⟩⟩
    obtain ⟨q, hq, hk⟩ := hinit t ht
    exact ⟨q, List.mem_cons_of_mem _ hq, hk⟩

/-- **Decoding.** An escaped text, decoded, is the text without the line ends at its front and
without its comments. Its tokens are texts and the tags of the text, with their contents escaped.
And what is escaped is read back, piece by piece. -/
theorem escapeText_decodes :
    (∀ (c : Context) (text : String), ∃ out c' ts rs us,
      escapeText c text = .ok (out, c') ∧
        (markupLexer text).tokens = .ok ts ∧
        (markupLexer (String.ofList (text.toList.dropWhile (· = '\n')))).tokens = .ok rs ∧
        (markupLexer out).tokens = .ok us ∧
        decode out = uncommented rs ∧
        uncommented ts = String.ofList (text.toList.takeWhile (· = '\n')) ++ decode out ∧
        tagParts us = (tagParts ts).map escapedParts ∧
        ∃ init n, us = init ++ [⟨.eof, "", n⟩] ∧
          ∀ u ∈ init, u.kind = .text ∨ u.kind = .startTag ∨ u.kind = .endTag) ∧
      (∀ s, decode (escapeHtml s) = s) ∧
      ∀ s t, escapeHtml (s ++ t) = escapeHtml s ++ escapeHtml t := by
  refine ⟨fun c text => ?_, Text.decode_escapeHtml, Text.escapeHtml_append⟩
  refine ⟨_, _, _, _, _, escapeText_eq c text, Markup.tokens_markupLexer _,
    Markup.tokens_markupLexer _, Markup.tokens_markupLexer _, ?_, ?_, ?_, ?_⟩
  · apply String.toList_injective
    rw [uncommented_place, String.toList_ofList, Text.toList_decode, toList_rewrite]
    exact decode_of_scan (scan_pieces _)
  · apply String.toList_injective
    rw [uncommented_place, String.toList_append, String.toList_ofList, decode_rewrite]
  · rw [tagParts_place, tagParts_place, tagParts_rewrite]
  · obtain ⟨init, n, hplace, hinit⟩ := place_init 0 (pieces (rewrite text).toList)
    refine ⟨init, n, hplace, fun u hu => ?_⟩
    obtain ⟨p, hp, hk⟩ := hinit u hu
    rw [hk]
    exact kind_rewrite text p hp

end Stencil.Autoescape
