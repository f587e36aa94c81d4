import Mathlib
import Stencil.Proofs.Autoescape.Trees
import Stencil.Proofs.Execution.Actions
import Stencil.Proofs.Execution.Journal

/-!
# Autoescaping does not change what a template does

A template that has been read is executed twice with the same data, once escaped and once not. The
two runs go in lockstep: each text is written as its rewriting, and each value as its string form
escaped. The call that has been added always has a value to escape, so it never fails.

Results:
* `items_lockstep`: the children of the root, one by one.
* `escape_refines`: same calls, same error, and the outputs piece by piece.
-/

namespace Stencil

open Stencil.Text (escapeHtml)

/-- What is written in the place of a text or a value where a template is escaped. -/
def Written.escaped : Written → Written
  | .text piece => .text (Autoescape.rewrite piece)
  | .value v => .value (.string (escapeHtml v.text))

namespace Autoescape

open Execution

variable {σ σ' : Type}

/-- Journals of which the second is the first one escaped. -/
def Mirrored (t t' : String × List Written) : Prop := t'.2 = t.2.map Written.escaped

theorem Mirrored.snoc {t t' : String × List Written} (h : Mirrored t t') (w : Written)
    (s s' : String) : Mirrored (s, t.2 ++ [w]) (s', t'.2 ++ [w.escaped]) := by
  simp only [Mirrored] at h ⊢
  rw [h, List.map_append]
  rfl

/-- Frames with related data and journals, whatever is in the register. -/
def Side (D : σ → σ' → Prop) (f : Frame σ (String × List Written))
    (f' : Frame σ' (String × List Written)) : Prop :=
  D f.data f'.data ∧ Mirrored f.sink f'.sink

/-- The register holds a value on the one side, and its escaped string form on the other. -/
def Called (D : σ → σ' → Prop) (f : Frame σ (String × List Written))
    (f' : Frame σ' (String × List Written)) : Prop :=
  Side D f f' ∧ ∃ v : Value, f.register = some v ∧
    f'.register = some (.string (escapeHtml v.text))

variable {D : σ → σ' → Prop} {data : Members σ} {data' : Members σ'}

theorem text_lockstep (value : String) :
    Lockstep (Side D) ((Node.text value).walk (visit data Sink.text.journaled))
      ((Node.text (rewrite value)).walk (visit data' Sink.text.journaled)) (Side D) (Side D) := by
  rw [walk_text, walk_text]
  exact lockstep_output (fun _ _ _ => rfl) (fun _ _ hf => ⟨hf.1, hf.2.snoc (.text value) _ _⟩)
    fun _ _ hf => ⟨hf.1, hf.2.snoc (.text value) _ _⟩

/-- Nothing on the one side, the added call on the other. -/
theorem call_lockstep :
    Lockstep (fun f f' => Level D Mirrored f f' ∧ f.register ≠ none) (pure ())
      (evaluate data' (call htmlHelper)) (Called D) (Side D) := by
  rintro f f' ⟨⟨hr, hd, ht⟩, hne⟩
  obtain ⟨v, hv⟩ := Option.ne_none_iff_exists'.1 hne
  have hinvoke : invoke data' (call htmlHelper) f'.register f'.data =
      (.value (.string (escapeHtml v.text)), f'.data) := by
    show data'.withHelpers.invoke htmlHelper f'.register f'.data = _
    rw [invoke_html, ← hr, hv]
    rfl
  rw [runFrom_pure, runFrom_evaluate, hinvoke]
  exact ⟨⟨hd, ht⟩, v, hv, rfl⟩

theorem writeRegister_lockstep :
    Lockstep (Called D) (writeRegister Sink.text.journaled) (writeRegister Sink.text.journaled)
      (Side D) (Side D) := by
  refine lockstep_writeRegister ?_
  rintro f f' ⟨⟨hd, ht⟩, v, hv, hv'⟩
  rw [hv, hv']
  refine ⟨?_, ⟨hd, ht.snoc (.value v) _ _⟩, ⟨hd, ht.snoc (.value v) _ _⟩⟩
  simp only [Sink.journaled, text_writeValue]

theorem action_lockstep (hd : Members.Alike D data data') {init terms : List Node}
    (hinit : ∀ n ∈ init, IsCommand n) (hne : terms ≠ []) (hterms : ∀ t ∈ terms, IsTerm t) :
    Lockstep (Side D)
      ((Node.action (init ++ [.command terms])).walk (visit data Sink.text.journaled))
      ((Node.action (init ++ [.command (terms ++ [call htmlHelper])])).walk
        (visit data' Sink.text.journaled)) (Side D) (Side D) := by
  have hplain := isCommand_concat hinit hne hterms
  have hescaped := isCommand_concat hinit (by simp) (isTerm_concat hterms)
  have hnil := termsOf_ne_nil (by simp) hplain
  have hconcat : termsOf (init ++ [.command (terms ++ [call htmlHelper])]) =
      termsOf (init ++ [.command terms]) ++ [call htmlHelper] := by
    rw [termsOf_concat, termsOf_concat, List.append_assoc]
  rw [walk_action data _ hplain, walk_action data' _ hescaped, hconcat]
  generalize termsOf (init ++ [.command terms]) = ts at hnil
  have hts := (terms_alike (T := Mirrored) hd ts).and_left (ends_terms (P := fun _ => True) ts)
  have hcall : Lockstep (Level D Mirrored) (ts.forM (evaluate data) >>= fun _ => pure ())
      ((ts ++ [call htmlHelper]).forM (evaluate data')) (Called D) (Side D) := by
    rw [forM_concat]
    exact Lockstep.seq (hts.mono (fun _ _ hf => ⟨hf, trivial⟩)
      (fun _ _ hf => ⟨hf.1, hf.2.2 hnil⟩) fun _ _ hf => hf.2) call_lockstep
  rw [bind_pure_unit] at hcall
  have hstart : Lockstep (Side D) (setRegister none) (setRegister none) (Level D Mirrored)
      (Side D) := lockstep_setRegister fun _ _ hf => ⟨rfl, hf⟩
  exact hstart.seq (hcall.seq writeRegister_lockstep)

/-- **Children of the root.** -/
theorem items_lockstep (hd : Members.Alike D data data') {c c' : Context} {ns es : List Node}
    (h : EscapesAll c ns es c') :
    Lockstep (Side D) (Node.walkAll (visit data Sink.text.journaled) ns)
      (Node.walkAll (visit data' Sink.text.journaled) es) (Side D) (Side D) := by
  induction h with
  | nil c => exact lockstep_pure fun _ _ hf => hf
  | cons hn _ ih =>
    refine Lockstep.seq ?_ ih
    cases hn with
    | text c value => exact text_lockstep value
    | action hinit hne hterms => exact action_lockstep hd hinit hne hterms

/-! ## Documents -/

theorem walk_lockstep (hd : Members.Alike D data data') {c c' : Context} {ns es : List Node}
    (h : EscapesAll c ns es c') :
    Lockstep (Side D) (walk data Sink.text.journaled (.root ns))
      (walk data' Sink.text.journaled (.root es)) (Side D) (Side D) := by
  have hprepare : Lockstep (Side D) (output Sink.text.journaled.prepare)
      (output Sink.text.journaled.prepare) (Side D) (Side D) :=
    lockstep_output (fun _ _ _ => rfl) (fun _ _ hf => hf) fun _ _ hf => hf
  have hpure : Lockstep (Side D) (pure ()) (pure ()) (Side D) (Side D) :=
    lockstep_pure fun _ _ hf => hf
  exact hprepare.seq (hpure.seq ((items_lockstep hd h).seq hpure))

/-- One run of each. -/
theorem execute_escaped {c c' : Context} {ns es : List Node} (h : EscapesAll c ns es c')
    {d e : Document} (hroot : d.root = .root ns) (hroot' : e.root = .root es) (name : String)
    (data : Members σ) (state : σ) :
    let plain := d.execute name .text data state ""
    let escaped := e.execute name .text data state ""
    escaped.error = plain.error ∧ escaped.data = plain.data ∧
      e.journal name .text data state "" =
        (d.journal name .text data state "").map Written.escaped := by
  have hwalk := walk_lockstep data.alike_refl h
  rw [← hroot, ← hroot'] at hwalk
  obtain ⟨herror, hdata, hjournal⟩ := execute_of_lockstep
    (Q := fun s s' t t' => s = s' ∧ Mirrored t t') hwalk name state state ("", [])
    ("", []) ⟨rfl, rfl⟩
  obtain ⟨hd, hd', -⟩ := execute_journaled d name .text data state "" []
  obtain ⟨he, he', -⟩ := execute_journaled e name .text data state "" []
  exact ⟨by rw [← he, ← hd, herror], by rw [← he', ← hd', hdata], hjournal⟩

/-- **Refinement.** With the same data from the same state, the escaped template makes the same
calls and ends with the same error, or without one, as the template that is not escaped. What it has
written by then is the same piece by piece: each text rewritten, and each value escaped. -/
theorem escape_refines {name text : String} {t : Template}
    (h : Template.compile name text true = .ok t) :
    ∃ u, Template.compile name text false = .ok u ∧
      ∀ {σ : Type} (data : Members σ) (state : σ) (run : String),
        let plain := u.document.execute run .text data state ""
        let escaped := t.document.execute run .text data state ""
        let written := u.document.journal run .text data state ""
        escaped.error = plain.error ∧ escaped.data = plain.data ∧
          t.document.calls run .text data state "" = u.document.calls run .text data state "" ∧
          t.document.journal run .text data state "" = written.map Written.escaped ∧
          plain.sink = joined written ∧ escaped.sink = joined (written.map Written.escaped) := by
  obtain ⟨d, hd, hu, he⟩ := compile_true h
  refine ⟨⟨d⟩, hu, fun data state run => ?_⟩
  obtain ⟨ns, es, c, rfl, he, -, hescapes⟩ := escapesAll_compile hd he
  have hroot : t.document.root = .root es := by rw [he]
  obtain ⟨herror, hdata, hjournal⟩ :=
    execute_escaped hescapes (d := .new name (.root ns)) rfl hroot run data state
  obtain ⟨-, hcalls, -⟩ := execute_escaped hescapes (d := .new name (.root ns)) rfl hroot run
    data.recorded (state, [])
  refine ⟨herror, hdata, ?_, hjournal, execute_text _ run data state, ?_⟩
  · rw [Document.calls, Document.calls, hcalls]
  · rw [execute_text, hjournal]

/-- A template whose data has no such member: both runs end with the same error, behind the text. -/
theorem escape_refines_missing :
    Template.compile "t" "'\x7b\x7b.X\x7d\x7d" true = .ok ⟨⟨"t", .root
        [.text "&#39;", .action [.command [.field ".X", call htmlHelper]]], true⟩⟩ ∧
      ∃ u, Template.compile "t" "'\x7b\x7b.X\x7d\x7d" false = .ok u ∧
        (u.document.execute "t" .text (.ofDict []) () "").error.isSome = true ∧
        (Document.execute
          ⟨"t", .root [.text "&#39;", .action [.command [.field ".X", call htmlHelper]]], true⟩
          "t" .text (.ofDict []) () "").error =
            (u.document.execute "t" .text (.ofDict []) () "").error := by
  have hcompile : Template.compile "t" "'\x7b\x7b.X\x7d\x7d" true = .ok ⟨⟨"t", .root
      [.text "&#39;", .action [.command [.field ".X", call htmlHelper]]], true⟩⟩ := by
    cbv
  obtain ⟨u, hu, h⟩ := escape_refines hcompile
  have herror := (h (.ofDict []) () "t").1
  refine ⟨hcompile, u, hu, ?_, herror⟩
  rw [← herror]
  cbv

end Autoescape

end Stencil
