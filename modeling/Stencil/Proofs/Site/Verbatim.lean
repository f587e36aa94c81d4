import Mathlib
import Stencil.Proofs.Autoescape.Trees
import Stencil.Proofs.Execution.Concatenation
import Stencil.Proofs.Site.History
import Stencil.Proofs.Token.Tiling

/-!
# Files that are not compiled

An engine writes a file as it is if no two braces in it open an action. That is a search in the
text, made before the lexer is. Both agree: the lexer gives an opening delimiter for just the texts
in which the search finds one. All other texts are templates that write themselves and call
nothing, so that nothing is lost by not compiling them.

Results:
* `isTemplate_iff`: the search finds what the lexer gives.
* `compile_verbatim`: what is not searched for compiles, and writes itself.
* `Engine.compiledOf_verbatim`: which files are not compiled.
* `verbatim_agrees`: the two ways through an engine, for each file.
-/

namespace Stencil

open Grammar (Plain opening textOf)

variable {text : String}

/-! ## Opening delimiters -/

theorem hasAction_iff : ∀ {cs : List Char}, hasAction cs = true ↔ opening <:+: cs
  | [] => by simp [hasAction]
  | c :: cs => by
    rw [hasAction, Bool.or_eq_true, Action.opensAction_iff, hasAction_iff, List.infix_cons_iff]

theorem plain_iff_isTemplate : Plain text.toList ↔ isTemplate text = false := by
  rw [Plain, ← hasAction_iff, Bool.not_eq_true, isTemplate]

namespace Action

variable {c c' : Cursor} {ts : List (Token Kind)} {inside : Bool} {last : Pull State Kind}

/-- Tokens without an opening delimiter are one text at most, up to the end of the source. -/
theorem Tiles.plain (h : Tiles false c ts inside c') (hlast : Ends inside c' last)
    (hno : ∀ t ∈ ts, t.kind ≠ .leftDelim) : Plain c.rest := by
  cases h with
  | nil =>
    cases hlast
    exact Grammar.plain_nil
  | @token _ _ p gap word rest kind ts _ hgap hword hmaximal hfits htiles =>
    have hkind : kind = .text := by
      have := hno _ List.mem_cons_self
      cases kind <;> simp_all [fits]
    subst hkind
    cases hword with
    | text _ hplain =>
      rw [hgap.outside rfl, List.nil_append]
      obtain rfl | ⟨-, hopens⟩ := hmaximal
      · rwa [List.append_nil]
      -- A text ends in front of an opening delimiter, so that is the next token.
      exfalso
      have hnext := htiles.head_ne_text (.inr hopens)
      cases htiles with
      | nil =>
        cases hlast
        simp at hopens
      | @token _ _ _ _ _ _ kind _ _ _ _ _ hfits _ =>
        have := hno _ (List.mem_cons_of_mem _ List.mem_cons_self)
        have := hnext _ rfl
        cases kind <;> simp_all [fits, opens]

/-- The tokens of a whole text hold an opening delimiter if the text does. -/
theorem exists_leftDelim_iff {source : List Char} (h : Tiles false (.ofSource source) ts inside c')
    (hlast : Ends inside c' last) : (∃ t ∈ ts, t.kind = .leftDelim) ↔ opening <:+: source := by
  constructor
  · rintro ⟨t, ht, hkind⟩
    obtain ⟨before, after, hsource, -, hword, -⟩ := h.stands t ht
    rw [hkind] at hword
    generalize t.value.toList = word at hsource hword
    cases hword
    exact ⟨before, after, hsource.symm⟩
  · intro hopens
    by_contra hno
    push Not at hno
    exact h.plain hlast hno hopens

end Action

/-- What a stream gives is among its tokens, or it is the last answer. -/
theorem Lexer.Streams.exists_iff {σ κ : Type} [DecidableEq σ] {l : Lexer σ κ}
    {ts : List (Token κ)} {last : Pull σ κ} (h : l.Streams ts last) (P : Token κ → Prop)
    (hlast : ∀ t, last = .token t → ¬P t) :
    (∃ n t, (l.after n).next.1 = .token t ∧ P t) ↔ ∃ t ∈ ts, P t := by
  constructor
  · rintro ⟨n, t, ht, hP⟩
    rw [h n] at ht
    rcases Nat.lt_trichotomy n ts.length with hn | rfl | hn
    · rw [List.getElem?_append_left (by simpa using hn), List.getElem?_map,
        List.getElem?_eq_getElem hn] at ht
      cases ht
      exact ⟨_, List.getElem_mem hn, hP⟩
    · rw [List.getElem?_append_right (by simp)] at ht
      simp only [List.length_map, Nat.sub_self, List.getElem?_cons_zero, Option.getD_some] at ht
      exact absurd hP (hlast t ht)
    · rw [List.getElem?_eq_none (by simpa using hn)] at ht
      cases ht
  · rintro ⟨t, ht, hP⟩
    obtain ⟨n, hn, rfl⟩ := List.getElem_of_mem ht
    refine ⟨n, _, ?_, hP⟩
    rw [h n, List.getElem?_append_left (by simpa using hn), List.getElem?_map,
      List.getElem?_eq_getElem hn]
    rfl

/-- The lexer gives an opening delimiter at some request. -/
def GivesAction (text : String) : Prop :=
  ∃ n t, ((actionLexer text).after n).next.1 = .token t ∧ t.kind = .leftDelim

/-- **The search** finds what the lexer gives. -/
theorem isTemplate_iff : isTemplate text = true ↔ GivesAction text := by
  obtain ⟨ts, last, inside, c, hcourse, htiles, hends⟩ :=
    Action.course_between (text.toList.length + 1) (c := .ofSource text.toList) .text
      (Nat.lt_succ_self _)
  have hlast : ∀ t : Token Action.Kind, last = .token t → ¬t.kind = .leftDelim := by
    rintro t rfl
    cases hends
    simp
  rw [isTemplate, hasAction_iff, ← Action.exists_leftDelim_iff htiles hends]
  exact (hcourse.streams.exists_iff _ hlast).symm

/-! ## Texts without actions -/

theorem exists_escape (name : String) (cs : List Char) :
    ∃ e, (Document.new name (.root (textOf cs))).escape = .ok e := by
  obtain ⟨es, c, hes⟩ : ∃ es c, Autoescape.escapeAll false .text (textOf cs) = .ok (es, c) := by
    unfold textOf
    split
    · exact ⟨_, _, rfl⟩
    · rw [Node.text, Autoescape.escapeAll, Autoescape.escapeNode, Autoescape.escapeText_eq]
      exact ⟨_, _, rfl⟩
  refine ⟨⟨name, .root es, true⟩, ?_⟩
  have hroot : Autoescape.escapeNode false .text (.root (textOf cs)) = .ok (.root es, c) := by
    rw [Node.root, Autoescape.escapeNode, hes]
    · rfl
    · simp
    · simp
  simp only [Document.escape, Document.new, hroot, Bool.false_eq_true, if_false]

theorem ofText_plain (h : isTemplate text = false) (name : String) :
    Document.ofText name text = .ok (.new name (.root (textOf text.toList))) :=
  Grammar.ofText_template (.mk .nil (plain_iff_isTemplate.2 h))

/-- A text without actions compiles, escaped or not. -/
theorem exists_compile (h : isTemplate text = false) (name : String) (autoescape : Bool) :
    ∃ t, Template.compile name text autoescape = .ok t := by
  obtain ⟨e, he⟩ := exists_escape name text.toList
  unfold Template.compile
  rw [ofText_plain h name]
  cases autoescape with
  | false => exact ⟨_, rfl⟩
  | true => exact ⟨⟨e⟩, by simp only [bind, Except.bind, if_true, he]; rfl⟩

/-- **Texts without actions.** Unescaped, it writes itself and calls nothing. -/
theorem compile_verbatim (h : isTemplate text = false) (name : String) :
    ∃ t, Template.compile name text false = .ok t ∧
      ∀ {σ : Type} (data : Members σ) (state : σ),
        t.renderTo .text data state "" = ⟨none, state, text⟩ ∧
          t.document.calls t.name .text data state "" = [] := by
  have htemplate : Grammar.Template text.toList (textOf text.toList) :=
    .mk .nil (plain_iff_isTemplate.2 h)
  refine ⟨⟨.new name (.root (textOf text.toList))⟩, ?_, fun data state => ?_⟩
  · unfold Template.compile
    rw [ofText_plain h name]
    rfl
  · have := Pipeline.execute_template data htemplate name name state
    rwa [Pipeline.meaning_textOf, String.ofList_toList] at this

/-! ## Engines -/

namespace Engine

theorem ofBytes_toUTF8 (text : String) : Source.ofBytes text.toUTF8 = .inl text := by
  have : String.fromUTF8? text.toUTF8 = some text := dif_pos text.isValidUTF8
  rw [Source.ofBytes, this]

theorem compiledOf_text (name : String) (path : Path) (text : String) (autoescape : Bool) :
    compiledOf name path autoescape (.ok text.toUTF8) =
      if isTemplate text then (Template.compile name text autoescape).map .template
      else .ok (.verbatim text) := by
  rw [compiledOf, ofBytes_toUTF8]

/-- **What is not compiled** has no action, and would compile. -/
theorem compiledOf_verbatim {name v : String} {path : Path} {autoescape : Bool}
    (h : compiledOf name path autoescape (.ok text.toUTF8) = .ok (.verbatim v)) :
    v = text ∧ isTemplate text = false := by
  rw [compiledOf_text] at h
  split at h
  · cases hc : Template.compile name text autoescape with
    | error e => rw [hc] at h; cases h
    | ok t => rw [hc] at h; cases h
  · rename_i hno
    cases h
    exact ⟨rfl, by simpa using hno⟩

variable {ω σ τ : Type} {e : Engine (StateM ω)} {name : String} {path : Path} {autoescape : Bool}

theorem render_of_get (sink : Sink τ) (data : Members σ) (state : σ) (target : τ) (w : ω) :
    ((e.render name sink data state target).run w).1.1 =
      rendered e.settings ((e.get name).run w).1.1 sink data state target := by
  unfold render rendered
  rw [run_bind, ← settings_get e name w]
  rfl

/-- What is given for a template that is to be compiled from a file of this text. -/
theorem get_of_read [Files (StateM ω)] {w w' : ω}
    (hd : e.templates.get? name = some (.pending (compile name path autoescape)))
    (hread : (Files.read (m := StateM ω) path).run w = (.ok text.toUTF8, w')) :
    ((e.get name).run w).1.1 = compiledOf name path autoescape (.ok text.toUTF8) := by
  rw [run_get hd, run_force_pending, run_compile_eq, hread]

theorem rendered_verbatim (settings : Settings) (text : String) (data : Members σ) (state : σ) :
    rendered settings (.ok (.verbatim text)) .text data state "" = ⟨none, state, text⟩ := by
  show (⟨none, state, "" ++ text⟩ : Run σ String) = _
  rw [String.empty_append]

end Engine

/-- **Files that are not compiled.** The search for an action finds what the lexer gives. A text
without one compiles, writes itself, whatever the data is, and calls none of its members. So does an
engine that holds it as a template. If nothing is escaped, what an engine writes for a file is what
the compiled file writes, and the error is its error, whether the engine compiles it or not. It
leaves no file uncompiled which holds an action or does not compile. -/
theorem verbatim_agrees (text : String) :
    (isTemplate text = true ↔ GivesAction text) ∧
    (isTemplate text = false → ∀ name, ∃ t, Template.compile name text false = .ok t ∧
      ∀ {σ : Type} (data : Members σ) (state : σ), t.render data state = (.ok text, state) ∧
        t.document.calls t.name .text data state "" = []) ∧
    ∀ {ω : Type} [Files (StateM ω)] (walk : Walker (StateM ω)) (root : Path) (settings : Settings)
      (engine : Engine (StateM ω)) (w₀ w₁ : ω),
      (Engine.discover (m := StateM ω) walk root settings).run w₀ = (.ok engine, w₁) →
      ∀ name d, engine.templates.get? name = some d → ∃ path,
        Engine.relativeName? root path = some name ∧
        ∀ w w', (Files.read (m := StateM ω) path).run w = (.ok text.toUTF8, w') →
          let compiled := (Template.compile name text settings.autoescape).map Compiled.template
          (isTemplate text = false → ∀ {σ : Type} (data : Members σ) (state : σ),
            ((engine.render name .text data state "").run w).1.1 = ⟨none, state, text⟩ ∧
              ((engine.render name .text data.recorded (state, []) "").run w).1.1.data.2 = []) ∧
          (settings.autoescape = false → ∀ {σ : Type} (data : Members σ) (state : σ),
            ((engine.render name .text data state "").run w).1.1 =
              Engine.rendered settings compiled .text data state "") ∧
          ∀ v, ((engine.get name).run w).1.1 = .ok (.verbatim v) →
            v = text ∧ ¬GivesAction text ∧ ∃ t, compiled = .ok (.template t) := by
  refine ⟨isTemplate_iff, fun hno name => ?_, ?engines⟩
  · obtain ⟨t, ht, hruns⟩ := compile_verbatim hno name
    refine ⟨t, ht, fun data state => ?_⟩
    obtain ⟨hrun, hcalls⟩ := hruns data state
    exact ⟨by rw [Template.render, hrun], hcalls⟩
  case engines =>
    intro ω _ walk root settings engine w₀ w₁ hdiscover name d hd
    obtain ⟨rfl, htemplates⟩ := Engine.get?_discover hdiscover
    obtain ⟨path, hname, rfl⟩ := htemplates name d hd
    refine ⟨path, hname, fun w w' hread => ?_⟩
    have hget := Engine.get_of_read hd hread
    have hrender : ∀ {σ : Type} (data : Members σ) (state : σ),
        ((engine.render name .text data state "").run w).1.1 = Engine.rendered engine.settings
          (Engine.compiledOf name path engine.settings.autoescape (.ok text.toUTF8)) .text
          data state "" := by
      intro σ data state
      rw [Engine.render_of_get, hget]
    refine ⟨fun hno => ?verbatim, fun hraw => ?unescaped, fun v hv => ?never⟩
    case verbatim =>
      intro σ data state
      rw [hrender, hrender, Engine.compiledOf_text, if_neg (by simp [hno])]
      simp only [Engine.rendered_verbatim, and_self]
    case unescaped =>
      intro σ data state
      rw [hrender, Engine.compiledOf_text]
      split
      · rfl
      · rename_i hno
        obtain ⟨t, ht, hruns⟩ := compile_verbatim (by simpa using hno) name
        rw [hraw, ht, Engine.rendered_verbatim]
        exact (hruns (data.orElse (.ofDict engine.settings.data)) state).1.symm
    case never =>
      rw [hget] at hv
      obtain ⟨rfl, hno⟩ := Engine.compiledOf_verbatim hv
      obtain ⟨t, ht⟩ := exists_compile hno name engine.settings.autoescape
      exact ⟨rfl, by rw [← isTemplate_iff, hno]; simp, t, by rw [ht]; rfl⟩

namespace OneFile

/-- Nothing is escaped. -/
def unescaped : Settings := { Settings.default with autoescape := false }

/-- Lone braces, and a closing delimiter that closes nothing. -/
def lone : String := "a \x7d\x7d \x7b"

/-- A file of lone braces is not compiled, and writes what it would if it were. -/
theorem verbatim_agrees_oneFile :
    isTemplate lone = false ∧ ¬GivesAction lone ∧
    (∃ t, Template.compile "a.html" lone false = .ok t ∧
      t.render Pipeline.counting 0 = (.ok lone, 0)) ∧
    (((engine unescaped).get "a.html").run ⟨lone, 0⟩).1.1 = .ok (.verbatim lone) ∧
    (((engine unescaped).render "a.html" .text Pipeline.counting 0 "").run ⟨lone, 0⟩).1.1 =
      ⟨none, 0, lone⟩ ∧
    Engine.rendered unescaped ((Template.compile "a.html" lone false).map .template) .text
      Pipeline.counting 0 "" = ⟨none, 0, lone⟩ := by
  have hno : isTemplate lone = false := by decide +kernel
  obtain ⟨-, hcompile, hengine⟩ := verbatim_agrees lone
  obtain ⟨t, ht, hruns⟩ := hcompile hno "a.html"
  obtain ⟨path, -, hfile⟩ := hengine walkFiles "in" unescaped (engine unescaped) ⟨lone, 0⟩
    ⟨lone, 0⟩ (discover_engine (by cbv) _) "a.html" _ rfl
  obtain ⟨hverbatim, hunescaped, hnever⟩ := hfile ⟨lone, 0⟩ ⟨lone, 1⟩ rfl
  have hget : (((engine unescaped).get "a.html").run ⟨lone, 0⟩).1.1 = .ok (.verbatim lone) := by cbv
  have hwritten := (hverbatim hno Pipeline.counting 0).1
  exact ⟨hno, (hnever lone hget).2.1, ⟨t, ht, (hruns Pipeline.counting 0).1⟩, hget, hwritten,
    (hunescaped rfl Pipeline.counting 0).symm.trans hwritten⟩

end OneFile

end Stencil
