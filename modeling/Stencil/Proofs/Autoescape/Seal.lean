import Mathlib
import Stencil.Proofs.Autoescape.Outputs
import Stencil.Proofs.Autoescape.Soundness
import Stencil.Proofs.Execution.Script

/-!
# Values and start tags

No value should be written inside a start tag. Autoescaping keeps track of the place from text to
text: a text of which something is left sets it to the place that this text ends in. So a start tag
that one text opens and the next goes on with is lost, and an action behind the two is accepted. The
reader of template text never puts two texts side by side, so this concerns trees built otherwise.

Results:
* `script_sealed`: whether a value stands inside a start tag is for the script of the tree to say.
* `sealed_iff`: all runs are sealed if the script is, and only then; and those of a template that
  has been read always are.
-/

namespace Stencil.Autoescape

open Stencil.Markup (Kind Segment EndsIn openTag resume)

variable {σ τ : Type}

/-- Where a value is written, what has been written before it does not end inside a start tag. -/
def Sealed (ws : List Written) : Prop :=
  ∀ pre v post, ws = pre ++ .value v :: post → ¬EndsIn .startTag (joined pre)

/-- The texts of a script put together. -/
def scriptText (script : List (Option String)) : String := String.join (script.filterMap id)

/-- No gap of a script is behind texts that end inside a start tag. -/
def SealedScript (script : List (Option String)) : Prop :=
  ∀ pre post, script = pre ++ none :: post → ¬EndsIn .startTag (scriptText pre)

theorem SealedScript.of_prefix {s s' : List (Option String)} (h : SealedScript s) (hs : s' <+: s) :
    SealedScript s' := by
  rintro pre post rfl
  obtain ⟨rest, rfl⟩ := hs
  exact h pre (post ++ rest) (by simp)

/-! ## Values between texts -/

/-- A value that has been escaped leaves the tag alone in which it stands. -/
theorem resume_value {v : Value} (h : Sound (.value v)) (k : Option Kind) (rest : List Char) :
    resume k ((Written.value v).output.toList ++ rest) = resume k rest := by
  obtain ⟨s, rfl⟩ := h
  simp only [Written.output, Value.text, Value.textBy, Text.toList_escapeHtml]
  exact Markup.resume_segment (s := .plain (Text.escapeChars s.toList))
    ⟨Text.not_mem_escapeChars (by decide) _, Text.not_mem_escapeChars (by decide) _⟩ k rest

theorem resume_text (text : String) (k : Option Kind) (rest : List Char) :
    resume k ((rewrite text).toList ++ rest) =
      resume ((segments text).foldl Segment.behind k) rest := by
  rw [rewrite, String.toList_ofList]
  exact Markup.resume_segments (fun s hs => (escaped_segments text s hs).clean) k rest

/-- The tag in which a journal ends is the one in which its texts end. -/
theorem resume_joined : ∀ {ws : List Written}, (∀ w ∈ ws, Sound w) → ∀ k,
    resume k (joined ws).toList = resume k (scriptText (ws.map Written.shape)).toList
  | [], _, k => by simp [scriptText]
  | .text piece :: ws, h, k => by
    obtain ⟨⟨text, rfl⟩, hws⟩ := List.forall_mem_cons.1 h
    have ih := resume_joined hws ((segments text).foldl Segment.behind k)
    have hscript : scriptText ((Written.text (rewrite text) :: ws).map Written.shape) =
        rewrite text ++ scriptText (ws.map Written.shape) := by
      simp [scriptText, Written.shape]
    rw [joined_cons, hscript, String.toList_append, String.toList_append, Written.output,
      resume_text, resume_text, ih]
  | .value v :: ws, h, k => by
    obtain ⟨hv, hws⟩ := List.forall_mem_cons.1 h
    have hscript : scriptText ((Written.value v :: ws).map Written.shape) =
        scriptText (ws.map Written.shape) := rfl
    rw [joined_cons, hscript, String.toList_append, resume_value hv, resume_joined hws]

theorem endsIn_joined {ws : List Written} (h : ∀ w ∈ ws, Sound w) :
    EndsIn .startTag (joined ws) ↔ EndsIn .startTag (scriptText (ws.map Written.shape)) := by
  rw [Markup.endsIn_iff (by decide), Markup.endsIn_iff (by decide)]
  exact (resume_joined h none).congr_left

/-- **Scripts.** A journal is sealed if its script is. -/
theorem script_sealed {ws : List Written} (h : ∀ w ∈ ws, Sound w) :
    Sealed ws ↔ SealedScript (ws.map Written.shape) := by
  constructor
  · intro hsealed pre post hpre hends
    obtain ⟨before, after, rfl, rfl, hafter⟩ := List.map_eq_append_iff.1 hpre
    obtain ⟨w, rest, rfl, hw, rfl⟩ := List.map_eq_cons_iff.1 hafter
    cases w with
    | text piece => cases hw
    | value v =>
      exact hsealed before v rest rfl
        ((endsIn_joined fun w hw => h w (by simp [hw])).2 hends)
  · rintro hscript pre v post rfl hends
    refine hscript (pre.map Written.shape) (post.map Written.shape) (by simp [Written.shape]) ?_
    exact (endsIn_joined fun w hw => h w (by simp [hw])).1 hends

/-! ## Templates that have been read -/

/-- **Children of the root.** `k` is the tag that is open before them. -/
theorem items_sealed {c c' : Context} {ns es : List Node} (h : EscapesAll c ns es c')
    (hlayout : Layout ns) : ∀ {k : Option Kind} {done : List Node} {ws : List Written},
      (k = some .startTag → c = .tag ∧ Bare ns) → done <+: ns → List.Forall₂ Puts done ws →
        (∀ w ∈ ws, Sound w) → ∀ pre v post, ws = pre ++ .value v :: post →
          resume k (joined pre).toList ≠ some .startTag := by
  induction h with
  | nil c =>
    intro k done ws _ hdone hputs _ pre v post hws
    rw [List.prefix_nil.1 hdone] at hputs
    cases hputs
    simp at hws
  | @cons c c₁ c₂ n e ns es hn _ ih =>
    intro k done ws hk hdone hputs hsound pre v post hws
    obtain ⟨-, hitems⟩ := List.forall_mem_cons.1 hlayout.items
    obtain ⟨hnext, halternate⟩ := List.isChain_cons.1 hlayout.alternate
    cases hputs with
    | nil => simp at hws
    | @cons m w done ws hput hputs =>
      obtain ⟨rfl, hrest⟩ := List.cons_prefix_cons.1 hdone
      obtain ⟨hw, hsound⟩ := List.forall_mem_cons.1 hsound
      have ih := fun k hk => @ih ⟨hitems, halternate⟩ k done ws hk hrest hputs hsound
      cases hput with
      | action commands u =>
        -- The place is between tags here, or the action would not have been accepted.
        have hopen : k ≠ some .startTag := by
          intro h
          have := (hk h).1
          cases hn
          cases this
        cases pre with
        | nil =>
          rw [joined_nil, String.toList_empty, Markup.resume_nil]
          exact hopen
        | cons x pre =>
          simp only [List.cons_append, List.cons.injEq] at hws
          obtain ⟨rfl, hws⟩ := hws
          rw [joined_cons, String.toList_append, resume_value hw]
          exact ih k (fun h => absurd h hopen) pre v post hws
      | text value =>
        -- A start tag that is open belongs to a text just before, and there is none.
        have hopen : k ≠ some .startTag := fun h => (hk h).2 _ rfl rfl
        cases pre with
        | nil => simp at hws
        | cons x pre =>
          simp only [List.cons_append, List.cons.injEq] at hws
          obtain ⟨rfl, hws⟩ := hws
          rw [joined_cons, String.toList_append, Written.output, resume_text]
          refine ih _ (fun h => ⟨?_, fun m hm => hnext m hm rfl⟩) pre v post hws
          cases hn
          exact context_of_behind h hopen c

/-- Reading puts no text behind a text, so no start tag is lost. -/
theorem sealed_read {name text : String} {d e : Document} (hd : Document.ofText name text = .ok d)
    (h : d.escape = .ok e) (run : String) (sink : Sink τ) (data : Members σ) (state : σ)
    (target : τ) : Sealed (e.journal run sink data state target) := by
  obtain ⟨ns, es, c, hns, hes, hlayout, hescapes⟩ := escapesAll_compile hd h
  have hroot : e.root = .root es := by rw [hes]
  have hsound := sound_journal h (by rw [hns]; rfl) run sink data state target
  obtain ⟨done, hdone, hputs, -⟩ := journal_puts hescapes hroot run sink data state target
  intro pre v post hws hends
  rw [Markup.endsIn_iff (by decide)] at hends
  exact items_sealed hescapes hlayout (k := none) (by simp) hdone hputs hsound pre v post hws hends

/-! ## All trees -/

/-- **Seals.** No run writes a value inside a start tag, if no gap of the script stands inside one;
and if one does, some run writes a value there. A template that has been read has no such gap. -/
theorem sealed_iff {d e : Document} (h : d.escape = .ok e) (hd : d.escaped = false) :
    ((∀ {σ τ : Type} (name : String) (sink : Sink τ) (data : Members σ) (state : σ) (target : τ),
        Sealed (e.journal name sink data state target)) ↔ SealedScript e.script) ∧
      ∀ name text, Document.ofText name text = .ok d → SealedScript e.script := by
  have hdry : Sealed (e.journal "" .text .answering () "") ↔ SealedScript e.script := by
    rw [← journal_answering e ""]
    exact script_sealed (sound_journal h hd "" .text .answering () "")
  refine ⟨⟨fun hall => hdry.1 (hall "" .text .answering () ""), ?_⟩, ?_⟩
  · intro hscript σ τ name sink data state target
    exact (script_sealed (sound_journal h hd name sink data state target)).2
      (hscript.of_prefix (journal_script e name sink data state target))
  · intro name text hread
    exact hdry.1 (sealed_read hread h "" .text .answering () "")

/-- A template that has been read. -/
theorem sealed_bold :
    (Document.new "t" (.root [.text "<b>", .action [.command [.field ".X"]]])).escape =
        .ok ⟨"t", .root [.text "<b>", .action [.command [.field ".X", call htmlHelper]]], true⟩ ∧
      Document.ofText "t" "<b>\x7b\x7b.X\x7d\x7d" =
        .ok (.new "t" (.root [.text "<b>", .action [.command [.field ".X"]]])) ∧
      Sealed (Document.journal
        ⟨"t", .root [.text "<b>", .action [.command [.field ".X", call htmlHelper]]], true⟩
        "t" .text (.ofDict [("X", .string ">")]) () "") := by
  have hescape : (Document.new "t"
      (.root [.text "<b>", .action [.command [.field ".X"]]])).escape = .ok
        ⟨"t", .root [.text "<b>", .action [.command [.field ".X", call htmlHelper]]], true⟩ := by
    cbv
  have hread : Document.ofText "t" "<b>\x7b\x7b.X\x7d\x7d" =
      .ok (.new "t" (.root [.text "<b>", .action [.command [.field ".X"]]])) := by
    cbv
  obtain ⟨hiff, hscript⟩ := sealed_iff hescape rfl
  exact ⟨hescape, hread, hiff.2 (hscript "t" _ hread) "t" .text _ () ""⟩

/-- **A lost start tag.** One text opens it, the next one goes on with it, and a value is written
inside. -/
theorem lost_start_tag : ∃ d e : Document, d.escaped = false ∧ d.escape = .ok e ∧
    ¬Sealed (e.journal "t" .text (.ofDict [("X", .string "v")]) () "") := by
  refine ⟨.new "t" (.root [.text "<a ", .text "b", .action [.command [.field ".X"]]]),
    ⟨"t", .root [.text "<a ", .text "b", .action [.command [.field ".X", call htmlHelper]]], true⟩,
    rfl, by cbv, fun h => ?_⟩
  have hjournal : Document.journal
      ⟨"t", .root [.text "<a ", .text "b", .action [.command [.field ".X", call htmlHelper]]], true⟩
      "t" .text (.ofDict [("X", .string "v")]) () "" =
        [.text "<a ", .text "b"] ++ .value (.string "v") :: [] := by
    cbv
  refine h _ _ _ hjournal ((Markup.endsIn_iff (by decide) _).2 ?_)
  cbv

end Stencil.Autoescape
