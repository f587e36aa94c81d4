import Mathlib
import Stencil.Proofs.Autoescape.Outputs
import Stencil.Proofs.Autoescape.Soundness

/-!
# Data does not change the markup of a template

The output of an escaped template is put together from segments, those of its texts and one stretch
of plain text for each value. So its tags are the tags of the texts, whatever the values are, as
long as no action stands inside a tag. Inside a start tag no action is accepted; that none stands
inside an end tag has to be asked for.

Results:
* `marks_joined`: the markup of a journal is that of its texts.
* `outline_render`: the markup of what a template renders does not depend on the data.
-/

namespace Stencil.Autoescape

open Stencil.Markup (Kind Piece Segment EndsIn pieces marks)
open Stencil.Text (escapeHtml)

/-- No text in front of an action ends inside an end tag. -/
def EndTagsClosed (ns : List Node) : Prop :=
  ∀ pre value n post, ns = pre ++ .text value :: n :: post → n.kind = .action →
    ¬EndsIn .endTag value

/-- Kind and value of each token that is no text. -/
def outline (ts : List (Token Kind)) : List (Kind × String) :=
  (ts.filter (·.kind ≠ .text)).map fun t => (t.kind, t.value)

/-- The start tags and end tags of a source. -/
def tags (source : String) : List (Kind × String) :=
  match (markupLexer source).tokens with
  | .ok ts =>
    (ts.filter fun t => t.kind = .startTag ∨ t.kind = .endTag).map fun t => (t.kind, t.value)
  | .error _ => []

/-- The tags of all texts below the root, in order. -/
def textTags (d : Document) : List (Kind × String) :=
  (d.root.children.filter (·.kind = .text)).flatMap fun n => tags n.value

/-! ## Texts in front of actions -/

theorem kind_of_isTag {kind : Kind} {cs : List Char} (h : Markup.IsTag kind cs) :
    kind = .startTag ∨ kind = .endTag := by
  cases h
  · exact .inl rfl
  · exact .inr rfl

/-- An action is accepted behind a text only if the text leaves no tag open but an end tag. -/
theorem closed_of_context {c : Context} {text : String}
    (hc : (segments text).foldl segmentContext c = .text) (hend : ¬EndsIn .endTag text) :
    ∀ s ∈ segments text, s.closed = true := by
  have hclosed := closed_segments text
  rcases List.eq_nil_or_concat (segments text) with hs | ⟨init, last, hs⟩
  · simp [hs]
  rw [List.concat_eq_append] at hs
  have hlast : last ∈ segments text := by simp [hs]
  rw [hs, List.dropLast_concat] at hclosed
  have hl : last.closed = true := by
    cases last with
    | plain cs => rfl
    | tag kind content closed =>
      cases closed with
      | true => rfl
      | false =>
        rcases kind_of_isTag (escaped_segments text _ hlast).1 with rfl | rfl
        · rw [hs, List.foldl_append] at hc
          cases hc
        · exact absurd ((Markup.endsIn_iff (by decide) text).2 (openTag_of_segments hlast)) hend
  rw [hs]
  intro s h
  rcases List.mem_append.1 h with h | h
  · exact hclosed s h
  · rwa [List.mem_singleton.1 h]

/-! ## Journals -/

/-- The tags that a child of the root writes. -/
def nodeMarks (n : Node) : List Piece :=
  match n.kind with
  | .text => (segments n.value).filterMap Segment.mark?
  | _ => []

theorem toList_rewrite (text : String) :
    (rewrite text).toList = (segments text).flatMap Segment.chars := by
  rw [rewrite, String.toList_ofList]

theorem marks_rewrite (text : String) :
    marks (rewrite text).toList = (segments text).filterMap Segment.mark? := by
  rw [toList_rewrite]
  exact Markup.marks_segments (fun s hs => (escaped_segments text s hs).clean)
    (closed_segments text)

/-- **Journals.** The markup of what has been written is that of the texts. -/
theorem marks_joined {c c' : Context} {ns es : List Node} (h : EscapesAll c ns es c')
    (hlayout : Layout ns) (hend : EndTagsClosed ns) : ∀ {ws : List Written},
      List.Forall₂ Puts ns ws → (∀ w ∈ ws, Sound w) →
        marks (joined ws).toList = ns.flatMap nodeMarks := by
  induction h with
  | nil c =>
    intro ws hws _
    cases hws
    simp [marks]
  | @cons c c₁ c₂ n e ns es hn hns ih =>
    intro ws hws hsound
    obtain ⟨hitem, hitems⟩ := List.forall_mem_cons.1 hlayout.items
    obtain ⟨hnext, halternate⟩ := List.isChain_cons.1 hlayout.alternate
    have htail : EndTagsClosed ns := fun pre value m post hpre =>
      hend (n :: pre) value m post (by simp [hpre])
    cases hws with
    | @cons _ w _ ws hput hputs =>
      obtain ⟨hw, hsound⟩ := List.forall_mem_cons.1 hsound
      have ih := ih ⟨hitems, halternate⟩ htail hputs hsound
      rw [joined_cons, String.toList_append, List.flatMap_cons, ← ih]
      cases hput with
      | action commands v =>
        obtain ⟨s, rfl⟩ := hw
        simp only [Written.output, Value.text, Value.textBy, Text.toList_escapeHtml]
        exact Markup.marks_plain (Text.not_mem_escapeChars (by decide) _) _
      | text value =>
        have hmarks : nodeMarks (.text value) = (segments value).filterMap Segment.mark? := rfl
        rw [hmarks]
        cases hns with
        | nil =>
          cases hputs
          simpa [marks, Written.output] using marks_rewrite value
        | @cons _ _ _ m _ ns _ hm hms =>
          -- No text follows a text, so an action does, and it has been accepted.
          have hcontext : c₁ = .text := by
            cases hm with
            | text _ value => exact absurd rfl (hnext _ rfl rfl)
            | action => rfl
          have haction : m.kind = .action := by
            cases hm with
            | text _ value => exact absurd rfl (hnext _ rfl rfl)
            | action => rfl
          have hclosed : ∀ s ∈ segments value, s.closed = true := by
            cases hn
            exact closed_of_context hcontext (hend [] value m ns rfl haction)
          rw [Written.output, toList_rewrite]
          exact Markup.marks_append
            (fun s hs => ⟨(escaped_segments value s hs).clean, hclosed s hs⟩) _

/-! ## Tokens -/

/-- A piece as an outline shows it. -/
def outlined (p : Piece) : Kind × String := (p.kind, String.ofList p.value)

theorem outline_place : ∀ (offset : Nat) (ps : List Piece),
    outline (Markup.place offset ps) =
      (ps.filter (·.kind ≠ .text)).map outlined ++ [(.eof, "")]
  | _, [] => rfl
  | offset, p :: ps => by
    have ih := outline_place (offset + Text.byteSize p.value) ps
    simp only [outline] at ih ⊢
    rw [Markup.place, List.filter_cons, List.filter_cons]
    split
    · rw [List.map_cons, List.map_cons, ih]
      rfl
    · exact ih

theorem tags_place : ∀ (offset : Nat) (ps : List Piece),
    ((Markup.place offset ps).filter fun t => t.kind = .startTag ∨ t.kind = .endTag).map
        (fun t => (t.kind, t.value)) =
      (ps.filter fun p => p.kind = .startTag ∨ p.kind = .endTag).map outlined
  | _, [] => rfl
  | offset, p :: ps => by
    have ih := tags_place (offset + Text.byteSize p.value) ps
    rw [Markup.place, List.filter_cons, List.filter_cons]
    split
    · rw [List.map_cons, List.map_cons, ih]
      rfl
    · exact ih

theorem mark_kind {s : Segment} (hs : s.Clean) {p : Piece} (hp : s.mark? = some p) :
    p.kind = .startTag ∨ p.kind = .endTag := by
  cases s with
  | plain cs => cases hp
  | tag kind content closed =>
    cases hp
    exact kind_of_isTag hs

/-- A piece of what is written is a text or a tag. -/
theorem kind_rewrite (text : String) : ∀ p ∈ pieces (rewrite text).toList,
    p.kind = .text ∨ p.kind = .startTag ∨ p.kind = .endTag := by
  intro p hp
  by_cases hk : p.kind = .text
  · exact .inl hk
  · have hmark : p ∈ marks (rewrite text).toList := List.mem_filter.2 ⟨hp, by simpa using hk⟩
    rw [marks_rewrite] at hmark
    obtain ⟨s, hs, hsp⟩ := List.mem_filterMap.1 hmark
    exact .inr (mark_kind (escaped_segments text s hs).clean hsp)

/-- The pieces that are tags. -/
def tagPieces (ps : List Piece) : List Piece :=
  ps.filter fun p => p.kind = .startTag ∨ p.kind = .endTag

theorem tagPieces_rewrite (text : String) :
    tagPieces (pieces (rewrite text).toList) = (segments text).filterMap Segment.mark? := by
  rw [← marks_rewrite, marks, tagPieces]
  refine List.filter_congr fun p hp => ?_
  rcases kind_rewrite text p hp with hk | hk | hk <;> simp [hk]

theorem tags_rewrite (text : String) :
    tags (rewrite text) = ((segments text).filterMap Segment.mark?).map outlined := by
  rw [tags, Markup.tokens_markupLexer]
  dsimp only
  rw [tags_place]
  exact congrArg (List.map outlined) (tagPieces_rewrite text)

theorem textTags_escaped {c c' : Context} {ns es : List Node} (h : EscapesAll c ns es c') :
    (es.filter (·.kind = .text)).flatMap (fun n => tags n.value) =
      (ns.flatMap nodeMarks).map outlined := by
  induction h with
  | nil c => rfl
  | cons hn _ ih =>
    rw [List.flatMap_cons, List.map_append, ← ih]
    cases hn with
    | text c value =>
      have htags := tags_rewrite value
      simpa [Node.text, nodeMarks] using htags
    | action => simp [Node.action, nodeMarks]

/-- One rendering. -/
theorem outline_output {name text : String} {t : Template} {d : Document}
    (h : Template.compile name text true = .ok t) (hd : Document.ofText name text = .ok d)
    (hend : EndTagsClosed d.root.children) {σ : Type} {data : Members σ} {state : σ}
    {out : String} (hout : (t.render data state).1 = .ok out) :
    ∃ ts, (markupLexer out).tokens = .ok ts ∧ outline ts = textTags t.document ++ [(.eof, "")] := by
  obtain ⟨d', hd', -, hescape⟩ := compile_true h
  obtain rfl : d = d' := Except.ok.inj (hd.symm.trans hd')
  obtain ⟨ns, es, c, hns, hes, hlayout, hescapes⟩ := escapesAll_compile hd hescape
  have hroot : t.document.root = .root es := by rw [hes]
  subst hns
  obtain ⟨done, -, hputs, hdone⟩ := journal_puts hescapes hroot t.name .text data state ""
  have hsound := sound_journal hescape rfl t.name .text data state ""
  unfold Template.render Template.renderTo at hout
  dsimp only at hout
  split at hout
  · rename_i hnone
    cases hout
    obtain rfl := hdone hnone
    refine ⟨_, Markup.tokens_markupLexer _, ?_⟩
    rw [outline_place, execute_text]
    have hmarks := marks_joined hescapes hlayout hend hputs hsound
    rw [marks] at hmarks
    rw [hmarks, ← textTags_escaped hescapes, textTags, hroot]
    rfl
  · cases hout

/-- **Markup.** Whatever it is rendered with, a template has the markup of its texts, and no
comments. -/
theorem outline_render {name text : String} {t : Template} {d : Document}
    (h : Template.compile name text true = .ok t) (hd : Document.ofText name text = .ok d)
    (hend : EndTagsClosed d.root.children) {σ₁ σ₂ : Type} {data₁ : Members σ₁} {state₁ : σ₁}
    {data₂ : Members σ₂} {state₂ : σ₂} {out₁ out₂ : String}
    (h₁ : (t.render data₁ state₁).1 = .ok out₁) (h₂ : (t.render data₂ state₂).1 = .ok out₂) :
    ∃ ts₁ ts₂, (markupLexer out₁).tokens = .ok ts₁ ∧ (markupLexer out₂).tokens = .ok ts₂ ∧
      outline ts₁ = outline ts₂ ∧ (∀ m ∈ outline ts₁, m.1 ≠ .comment) ∧
      outline ts₁ = textTags t.document ++ [(.eof, "")] := by
  obtain ⟨ts₁, hts₁, houtline₁⟩ := outline_output h hd hend h₁
  obtain ⟨ts₂, hts₂, houtline₂⟩ := outline_output h hd hend h₂
  refine ⟨ts₁, ts₂, hts₁, hts₂, houtline₁.trans houtline₂.symm, ?_, houtline₁⟩
  rw [houtline₁]
  intro m hm
  rcases List.mem_append.1 hm with hm | hm
  · obtain ⟨n, -, hm⟩ := List.mem_flatMap.1 hm
    unfold tags at hm
    split at hm
    · obtain ⟨u, hu, rfl⟩ := List.mem_map.1 hm
      have hk := (List.mem_filter.1 hu).2
      intro hc
      rw [show u.kind = .comment from hc] at hk
      simp at hk
    · cases hm
  · rw [List.mem_singleton.1 hm]
    decide

/-- A bold letter, of which one is a bracket. -/
theorem outline_render_bold :
    Template.compile "t" "<b>\x7b\x7b.X\x7d\x7d" true =
        .ok ⟨⟨"t", .root [.text "<b>", .action [.command [.field ".X", call htmlHelper]]], true⟩⟩ ∧
      ∃ ts₁ ts₂, (markupLexer "<b>&lt;").tokens = .ok ts₁ ∧ (markupLexer "<b>a").tokens = .ok ts₂ ∧
        outline ts₁ = outline ts₂ ∧ outline ts₁ = [(.startTag, "<b>"), (.eof, "")] := by
  have hcompile : Template.compile "t" "<b>\x7b\x7b.X\x7d\x7d" true = .ok ⟨⟨"t", .root
      [.text "<b>", .action [.command [.field ".X", call htmlHelper]]], true⟩⟩ := by
    cbv
  have hread : Document.ofText "t" "<b>\x7b\x7b.X\x7d\x7d" =
      .ok (.new "t" (.root [.text "<b>", .action [.command [.field ".X"]]])) := by
    cbv
  have hend : EndTagsClosed [.text "<b>", .action [.command [.field ".X"]]] := by
    intro pre value n post h _
    have hopen : Markup.openTag ['<', 'b', '>'] = none := by cbv
    rw [Markup.endsIn_iff (by decide)]
    cases pre with
    | nil =>
      cases h
      rw [show ("<b>" : String).toList = ['<', 'b', '>'] from rfl, hopen]
      simp
    | cons m pre =>
      have := congrArg List.length h
      simp only [List.length_cons, List.length_append, List.length_nil] at this
      omega
  obtain ⟨ts₁, ts₂, h₁, h₂, houtline, -, htags⟩ := @outline_render _ _ _ _ hcompile hread hend
    Unit Unit (.ofDict [("X", .string "<")]) () (.ofDict [("X", .string "a")]) () "<b>&lt;" "<b>a"
    (by cbv) (by cbv)
  refine ⟨hcompile, ts₁, ts₂, h₁, h₂, houtline, htags.trans ?_⟩
  cbv

end Stencil.Autoescape
