import Mathlib
import Stencil.Proofs.Autoescape.Trees
import Stencil.Proofs.Execution.Journal

/-!
# Autoescaping is sound

Whatever tree has been escaped and whatever data it is executed with, what it hands to its sink is
text in HTML. The invariant is `Good`: what has been written is sound, and where the escaping call
has just been made, so is the register.

Results:
* `escapeNode_good`: the walk over an escaped node keeps to the invariant.
* `escape_sound`: values are escaped, texts hold special characters in their tags only, and each
  `&` of the output begins a reference.
-/

namespace Stencil.Autoescape

open Execution
open Stencil.Text (escapeHtml rawSpecials OnlyReferences)

variable {σ τ : Type}

/-- A text that has been rewritten, or a value that has been escaped. -/
def Sound : Written → Prop
  | .text piece => ∃ text, piece = rewrite text
  | .value v => ∃ s, v = .string (escapeHtml s)

/-- What is in the register may be written. -/
def SafeRegister (f : Frame σ (τ × List Written)) : Prop :=
  ∀ v, f.register = some v → ∃ s, v = .string (escapeHtml s)

/-- All that has been written is sound, and under a condition so is the register. -/
def Good (safe : Prop) (f : Frame σ (τ × List Written)) : Prop :=
  (∀ w ∈ f.sink.2, Sound w) ∧ (safe → SafeRegister f)

theorem Good.mono {p q : Prop} (hpq : q → p) {f : Frame σ (τ × List Written)} (h : Good p f) :
    Good q f :=
  ⟨h.1, fun hq => h.2 (hpq hq)⟩

theorem Good.write {p : Prop} {f : Frame σ (τ × List Written)} (h : Good p f) {w : Written}
    (hw : Sound w) (t : τ) : Good p { f with sink := (t, f.sink.2 ++ [w]) } := by
  refine ⟨fun v hv => ?_, h.2⟩
  rcases List.mem_append.1 hv with hv | hv
  · exact h.1 v hv
  · rwa [List.mem_singleton.1 hv]

theorem good_mono {p p' q q' : Prop} {x : Execution σ (τ × List Written) Unit}
    (h : Ends (Good p) x (Good q) (Good False)) (hp : p → p') (hq : q' → q) :
    Ends (Good p') x (Good q') (Good False) :=
  h.mono (fun _ hf => hf.mono hp) (fun _ hf => hf.mono hq) fun _ hf => hf

/-! ## Visits -/

section

variable (data : Members σ) (sink : Sink τ)

theorem enter_good (n : Node) :
    Ends (Good False) (visit data sink.journaled .enter n) (Good (n.kind = .action))
      (Good False) := by
  have heval : Ends (Good False) (evaluate data n) (Good (τ := τ) False) (Good False) :=
    ends_evaluate (fun f v s hf _ => ⟨hf.1, False.elim⟩) fun f s hf => ⟨hf.1, False.elim⟩
  obtain ⟨kind, value, children⟩ := n
  cases kind with
  | action => exact ends_setRegister fun f hf => ⟨hf.1, fun _ v hv => by cases hv⟩
  | field => exact good_mono heval id (by simp)
  | identifier => exact good_mono heval id (by simp)
  | root => exact ends_pure fun _ hf => hf.mono (by simp)
  | text => exact ends_pure fun _ hf => hf.mono (by simp)
  | command => exact ends_pure fun _ hf => hf.mono (by simp)

/-- An action needs a register that may be written, and a text is one that has been rewritten. -/
theorem leave_good {p : Prop} {n : Node} (haction : n.kind = .action → p)
    (htext : n.kind = .text → ∃ text, n.value = rewrite text) :
    Ends (Good p) (visit data sink.journaled .leave n) (Good p) (Good False) := by
  obtain ⟨kind, value, children⟩ := n
  cases kind with
  | text =>
    exact ends_output (fun _ hf => hf.write (w := .text value) (htext rfl) _)
      fun _ hf => (hf.write (w := .text value) (htext rfl) _).mono False.elim
  | action =>
    refine ends_writeRegister (fun f hf _ => ⟨hf.1, fun _ v hv => by cases hv⟩) ?_ ?_
    · intro f v hf hv
      exact ⟨(hf.write (w := .value v) (hf.2 (haction rfl) v hv) _).1, fun _ v hv => by cases hv⟩
    · intro f v hf hv
      exact ⟨(hf.write (w := .value v) (hf.2 (haction rfl) v hv) _).1, False.elim⟩
  | root => exact ends_pure fun _ hf => hf
  | command => exact ends_pure fun _ hf => hf
  | field => exact ends_pure fun _ hf => hf
  | identifier => exact ends_pure fun _ hf => hf

/-- The escaping call leaves an escaped value in the register, whatever the data is. -/
theorem enterCall_good (children : List Node) :
    Ends (Good False) (visit data sink.journaled .enter ⟨.identifier, htmlHelper, children⟩)
      (Good True) (Good False) := by
  rw [visit_enter_identifier]
  refine ends_evaluate (fun f v s hf hv => ⟨hf.1, fun _ => ?_⟩) fun f s hf => ⟨hf.1, False.elim⟩
  have hv : Methods.html.call f.register f.data = (.value v, s) := by
    rw [← invoke_html data]; exact hv
  intro w hw
  obtain rfl : v = w := Option.some.inj hw
  cases hr : f.register with
  | none => rw [hr] at hv; cases hv
  | some w => rw [hr] at hv; cases hv; exact ⟨_, rfl⟩

/-! ## Trees -/

theorem call_good (children : List Node)
    (hchildren : Ends (Good True) (Node.walkAll (visit data sink.journaled) children) (Good True)
      (Good False)) :
    Ends (Good False) (Node.walk (visit data sink.journaled) ⟨.identifier, htmlHelper, children⟩)
      (Good True) (Good False) := by
  simp only [Node.walk]
  exact (enterCall_good data sink children).seq (hchildren.seq (leave_good data sink (by simp)
    (by simp)))

theorem leafCall_good :
    Ends (Good False) (Node.walk (visit data sink.journaled) (call htmlHelper)) (Good True)
      (Good False) :=
  call_good data sink [] (ends_pure fun _ hf => hf)

/-- The call that has got another call below it. -/
theorem nestedCall_good :
    Ends (Good False)
      (Node.walk (visit data sink.journaled) ((call htmlHelper).push (call htmlHelper))) (Good True)
      (Good False) :=
  call_good data sink [call htmlHelper]
    ((good_mono (leafCall_good data sink) False.elim id).seq (ends_pure fun _ hf => hf))

/-- One call behind nodes, or none. -/
theorem walkAll_withCall {p : Prop} {ns : List Node} {called : Bool}
    (h : Ends (Good p) (Node.walkAll (visit data sink.journaled) ns) (Good False) (Good False)) :
    Ends (Good p) (Node.walkAll (visit data sink.journaled) (withCall called ns))
      (Good (called = true)) (Good False) := by
  cases called with
  | false => exact good_mono h id (by simp)
  | true =>
    simp only [withCall, if_true, walkAll_append, Node.walkAll]
    exact h.seq ((leafCall_good data sink).seq (ends_pure fun _ hf => hf.mono fun _ => trivial))

/-- The node itself, around children that keep to the invariant. -/
theorem walk_good {kind : NodeKind} {value : String} {children : List Node} {p : Prop}
    (haction : kind = .action → p) (htext : kind = .text → ∃ text, value = rewrite text)
    (h : Ends (Good (kind = .action)) (Node.walkAll (visit data sink.journaled) children) (Good p)
      (Good False)) :
    Ends (Good False) (Node.walk (visit data sink.journaled) ⟨kind, value, children⟩) (Good p)
      (Good False) := by
  simp only [Node.walk]
  exact (enter_good data sink _).seq (h.seq (leave_good data sink haction htext))

mutual

/-- **One node.** Behind a node that is called, the register may be written. -/
theorem escapeNode_good : (n : Node) → ∀ {called : Bool} {c c' : Context} {e : Node},
    escapeNode called c n = .ok (e, c') →
      Ends (Good False) (e.walk (visit data sink.journaled)) (Good (called = true)) (Good False)
  | ⟨kind, value, children⟩, called, c, c', e, h => by
    by_cases ht : kind = .text
    · subst ht
      obtain ⟨es, hes, rfl⟩ := escapeNode_text h
      exact walk_good data sink (by simp) (fun _ => ⟨value, rfl⟩) (walkAll_withCall data sink
        (good_mono (escapeAll_good children hes) (by simp) False.elim))
    by_cases ha : kind = .action
    · subst ha
      obtain ⟨-, es, hes, rfl⟩ := escapeNode_action h
      have hchildren := escapeAll_good children hes
      refine good_mono (walk_good data sink (p := True) (fun _ => trivial) (by simp) ?_) id
        fun _ => trivial
      -- If the action is called, the call is its last child and so is called itself.
      cases called with
      | false =>
        rw [if_neg Bool.false_ne_true, List.append_nil]
        exact good_mono hchildren (fun _ => rfl) fun _ => rfl
      | true =>
        rw [if_pos rfl, walkAll_append]
        exact (good_mono hchildren (by simp) False.elim).seq
          ((nestedCall_good data sink).seq (ends_pure fun _ hf => hf))
    · obtain ⟨es, hes, rfl⟩ := escapeNode_other ht ha h
      exact walk_good data sink (fun hk => absurd hk ha) (fun hk => absurd hk ht)
        (walkAll_withCall data sink
          (good_mono (escapeAll_good children hes) (by simp) False.elim))

/-- Nodes in a row. If there are none, the register has to be safe before. -/
theorem escapeAll_good : (ns : List Node) → ∀ {last : Bool} {c c' : Context} {es : List Node},
    escapeAll last c ns = .ok (es, c') →
      Ends (Good (last = true ∧ ns = [])) (Node.walkAll (visit data sink.journaled) es)
        (Good (last = true)) (Good False)
  | [], last, c, c', es, h => by
    obtain ⟨rfl, -⟩ := escapeAll_nil h
    exact ends_pure fun _ hf => hf.mono fun hl => ⟨hl, rfl⟩
  | n :: ns, last, c, c', es, h => by
    obtain ⟨e, c₁, es, he, hes, rfl⟩ := escapeAll_cons h
    simp only [Node.walkAll]
    exact (good_mono (escapeNode_good n he) False.elim (by simp)).seq (escapeAll_good ns hes)

end

end

/-! ## Documents -/

theorem walk_escaped {d e : Document} (h : d.escape = .ok e) (hd : d.escaped = false)
    (data : Members σ) (sink : Sink τ) :
    Ends (Good False) (walk data sink.journaled e.root) (Good False) (Good False) := by
  obtain ⟨c, hroot⟩ := escape_ok h hd
  have hprepare : Ends (Good False) (output sink.journaled.prepare) (Good False)
      (Good (σ := σ) False) :=
    ends_output (fun _ hf => hf) fun _ hf => hf
  exact good_mono (hprepare.seq (escapeNode_good data sink d.root hroot)) id False.elim

theorem sound_journal {d e : Document} (h : d.escape = .ok e) (hd : d.escaped = false)
    (name : String) (sink : Sink τ) (data : Members σ) (state : σ) (target : τ) :
    ∀ w ∈ e.journal name sink data state target, Sound w := by
  have := execute_of_ends (Q := fun _ t => ∀ w ∈ t.2, Sound w) (E := fun _ t => ∀ w ∈ t.2, Sound w)
    ((walk_escaped h hd data sink).mono (fun _ hf => hf) (fun _ hf => hf.1) fun _ hf => hf.1) name
    state (target, []) ⟨by simp, False.elim⟩
  unfold Document.journal
  rwa [ite_self] at this

theorem onlyReferences_segment {s : Markup.Segment} (h : Escaped s) : OnlyReferences s.chars := by
  cases s with
  | plain cs =>
    obtain ⟨ds, rfl⟩ := h
    exact Text.onlyReferences_escapeChars ds
  | tag kind cs closed =>
    obtain ⟨ht, ds, hds⟩ := h
    have hopening : OnlyReferences kind.opening :=
      Text.onlyReferences_of_not_mem (by cases ht <;> decide)
    have hclosing : OnlyReferences (if closed then ['>'] else []) :=
      Text.onlyReferences_of_not_mem (by cases closed <;> decide)
    rw [Markup.Segment.chars, hds]
    exact (hopening.append (Text.onlyReferences_escapeChars ds)).append hclosing

theorem Sound.onlyReferences {w : Written} (h : Sound w) : OnlyReferences w.output.toList := by
  cases w with
  | text piece =>
    obtain ⟨text, rfl⟩ := h
    rw [Written.output, rewrite, String.toList_ofList]
    exact Text.onlyReferences_flatMap fun s hs =>
      onlyReferences_segment (escaped_segments text s hs)
  | value v =>
    obtain ⟨s, rfl⟩ := h
    simp only [Written.output, Value.text, Value.textBy, Text.toList_escapeHtml]
    exact Text.onlyReferences_escapeChars _

theorem onlyReferences_joined {ws : List Written} (h : ∀ w ∈ ws, Sound w) :
    OnlyReferences (joined ws).toList := by
  rw [joined, String.toList_join, List.flatMap_map]
  exact Text.onlyReferences_flatMap fun w hw => (h w hw).onlyReferences

/-- **Soundness.** Whatever the tree was, a document that has been escaped writes nothing but text
in HTML, with any data and up to any failure: its values are escaped, its texts hold special
characters in their tags only, and each `&` begins a reference. -/
theorem escape_sound {d e : Document} (h : d.escape = .ok e) (hd : d.escaped = false)
    (name : String) (sink : Sink τ) (data : Members σ) (state : σ) (target : τ) :
    let ws := e.journal name sink data state target
    (∀ v, .value v ∈ ws → ∃ s, v = .string (escapeHtml s) ∧
      ∀ c ∈ (escapeHtml s).toList, c ∉ rawSpecials) ∧
      (∀ piece, .text piece ∈ ws → TagsOnly piece) ∧
      OnlyReferences (joined ws).toList ∧
      OnlyReferences (e.execute name .text data state "").sink.toList := by
  have hsound := sound_journal h hd name sink data state target
  refine ⟨fun v hv => ?_, fun piece hp => ?_, onlyReferences_joined hsound, ?_⟩
  · obtain ⟨s, rfl⟩ := hsound _ hv
    refine ⟨s, rfl, ?_⟩
    rw [Text.toList_escapeHtml]
    exact not_mem_rawSpecials _
  · obtain ⟨text, rfl⟩ := hsound _ hp
    exact tagsOnly_rewrite text
  · rw [execute_text]
    exact onlyReferences_joined (sound_journal h hd name .text data state "")

/-- An action below an action, and data with a member `html` of its own. -/
theorem escape_sound_nested :
    (Document.new "t" (.root [.text "<p>'", .action [.action [.field ".X"]]])).escape =
        .ok ⟨"t", .root [.text "<p>&#39;",
          .action [.action [.field ".X", (call htmlHelper).push (call htmlHelper)]]], true⟩ ∧
      ((⟨"t", .root [.text "<p>&#39;",
          .action [.action [.field ".X", (call htmlHelper).push (call htmlHelper)]]], true⟩ :
        Document).execute "t" .text (.ofDict [("X", .string "<"), ("html", .null)]) () "").sink =
          "<p>&#39;&amp;lt;" ∧
      OnlyReferences "<p>&#39;&amp;lt;".toList := by
  have hescape : (Document.new "t"
      (.root [.text "<p>'", .action [.action [.field ".X"]]])).escape =
        .ok ⟨"t", .root [.text "<p>&#39;",
          .action [.action [.field ".X", (call htmlHelper).push (call htmlHelper)]]], true⟩ := by
    cbv
  have hsink : ((⟨"t", .root [.text "<p>&#39;",
          .action [.action [.field ".X", (call htmlHelper).push (call htmlHelper)]]], true⟩ :
        Document).execute "t" .text (.ofDict [("X", .string "<"), ("html", .null)]) () "").sink =
          "<p>&#39;&amp;lt;" := by
    cbv
  refine ⟨hescape, hsink, ?_⟩
  rw [← hsink]
  exact (escape_sound hescape rfl "t" .text _ () "").2.2.2

end Stencil.Autoescape
