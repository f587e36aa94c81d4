import Stencil.Engine
import Stencil.Proofs.Autoescape.Texts
import Stencil.Proofs.Tree.Layout

/-!
# What autoescaping makes of a tree

Results:
* `escapeNode_text`, `escapeNode_action`, `escapeNode_other`, `escapeAll_cons`: what a node that is
  accepted becomes, by its kind.
* `escapesAll_compile`: the children of a template that has been read are escaped one by one.
-/

namespace Stencil.Autoescape

variable {called : Bool} {c c' : Context} {e : Node} {es : List Node}

/-! ## Nodes -/

theorem bind_ok {ε α β : Type} {x : Except ε α} {k : α → Except ε β} {b : β}
    (h : (x >>= k) = .ok b) : ∃ a, x = .ok a ∧ k a = .ok b := by
  cases x with
  | error e => cases h
  | ok a => exact ⟨a, rfl, h⟩

theorem escapeNode_text {value : String} {children : List Node}
    (h : escapeNode called c ⟨.text, value, children⟩ = .ok (e, c')) :
    ∃ es, escapeAll false ((segments value).foldl segmentContext c) children = .ok (es, c') ∧
      e = ⟨.text, rewrite value, withCall called es⟩ := by
  rw [escapeNode, escapeText_eq] at h
  obtain ⟨⟨v, c₁⟩, hv, h⟩ := bind_ok h
  cases hv
  dsimp only at h
  obtain ⟨⟨es, c₂⟩, hes, h⟩ := bind_ok h
  cases h
  exact ⟨es, hes, rfl⟩

/-- An action is accepted between tags only. -/
theorem escapeNode_action {value : String} {children : List Node}
    (h : escapeNode called c ⟨.action, value, children⟩ = .ok (e, c')) :
    c = .text ∧ ∃ es, escapeAll (!called) .text children = .ok (es, c') ∧
      e = ⟨.action, value,
        es ++ if called then [(call htmlHelper).push (call htmlHelper)] else []⟩ := by
  rw [escapeNode] at h
  cases c with
  | text =>
    obtain ⟨⟨es, c₁⟩, hes, h⟩ := bind_ok h
    cases h
    exact ⟨rfl, es, hes, rfl⟩
  | tag => cases h
  | attributeName => cases h

theorem escapeNode_other {kind : NodeKind} {value : String} {children : List Node}
    (ht : kind ≠ .text) (ha : kind ≠ .action)
    (h : escapeNode called c ⟨kind, value, children⟩ = .ok (e, c')) :
    ∃ es, escapeAll false c children = .ok (es, c') ∧ e = ⟨kind, value, withCall called es⟩ := by
  rw [escapeNode] at h
  · obtain ⟨⟨es, c₁⟩, hes, h⟩ := bind_ok h
    cases h
    exact ⟨es, hes, rfl⟩
  · exact ht
  · exact ha

theorem escapeAll_nil {last : Bool} (h : escapeAll last c [] = .ok (es, c')) :
    es = [] ∧ c' = c := by
  rw [escapeAll] at h
  cases h
  exact ⟨rfl, rfl⟩

theorem escapeAll_cons {last : Bool} {n : Node} {ns : List Node}
    (h : escapeAll last c (n :: ns) = .ok (es, c')) :
    ∃ e c₁ es', escapeNode (last && ns.isEmpty) c n = .ok (e, c₁) ∧
      escapeAll last c₁ ns = .ok (es', c') ∧ es = e :: es' := by
  rw [escapeAll] at h
  obtain ⟨⟨e, c₁⟩, he, h⟩ := bind_ok h
  dsimp only at h
  obtain ⟨⟨es', c₂⟩, hes, h⟩ := bind_ok h
  cases h
  exact ⟨e, c₁, es', he, hes, rfl⟩

theorem escape_ok {d e : Document} (h : d.escape = .ok e) (hd : d.escaped = false) :
    ∃ c, escapeNode false .text d.root = .ok (e.root, c) := by
  unfold Document.escape at h
  rw [hd] at h
  simp only [Bool.false_eq_true, if_false] at h
  split at h
  · rename_i root c hroot
    cases h
    exact ⟨c, hroot⟩
  · cases h

/-! ## Templates that have been read -/

theorem escapeAll_cons_eq {last : Bool} {n : Node} {ns : List Node} {c₁ : Context}
    (he : escapeNode (last && ns.isEmpty) c n = .ok (e, c₁))
    (hes : escapeAll last c₁ ns = .ok (es, c')) :
    escapeAll last c (n :: ns) = .ok (e :: es, c') := by
  rw [escapeAll, he]
  simp only [bind, Except.bind]
  rw [hes]
  rfl

theorem escapeNode_term {t : Node} (h : IsTerm t) (c : Context) :
    escapeNode false c t = .ok (t, c) := by
  cases h <;> rfl

theorem escapeAll_terms (c : Context) : ∀ {terms : List Node}, (∀ t ∈ terms, IsTerm t) →
    escapeAll false c terms = .ok (terms, c)
  | [], _ => rfl
  | t :: ts, h => by
    obtain ⟨ht, hts⟩ := List.forall_mem_cons.1 h
    exact escapeAll_cons_eq (escapeNode_term ht c) (escapeAll_terms c hts)

theorem escapeNode_command {terms : List Node} (h : ∀ t ∈ terms, IsTerm t) (called : Bool)
    (c : Context) :
    escapeNode called c (.command terms) = .ok (.command (withCall called terms), c) := by
  rw [Node.command, escapeNode, escapeAll_terms c h]
  · rfl
  · simp
  · simp

/-- The last command gets the call. -/
theorem escapeAll_commands (c : Context) : ∀ {init : List Node} {terms : List Node},
    (∀ n ∈ init, IsCommand n) → (∀ t ∈ terms, IsTerm t) →
      escapeAll true c (init ++ [.command terms]) =
        .ok (init ++ [.command (terms ++ [call htmlHelper])], c)
  | [], terms, _, hterms => escapeAll_cons_eq (escapeNode_command hterms true c) rfl
  | n :: init, terms, hinit, hterms => by
    obtain ⟨hn, hinit⟩ := List.forall_mem_cons.1 hinit
    have hrest : (init ++ [Node.command terms]).isEmpty = false := by simp
    have hnode : escapeNode false c n = .ok (n, c) := by
      cases hn with
      | mk _ hts => exact escapeNode_command hts false c
    rw [List.cons_append, List.cons_append]
    refine escapeAll_cons_eq ?_ (escapeAll_commands c hinit hterms)
    rwa [hrest, Bool.and_false]

/-- The call is a term like any other. -/
theorem isTerm_concat {terms : List Node} (h : ∀ t ∈ terms, IsTerm t) :
    ∀ t ∈ terms ++ [call htmlHelper], IsTerm t := by
  intro t ht
  rcases List.mem_append.1 ht with ht | ht
  · exact h t ht
  · rw [List.mem_singleton.1 ht]
    exact .identifier _

/-- A child of the root and what it becomes, with the places before and behind it. -/
inductive Escapes : Context → Node → Node → Context → Prop where
  | text (c : Context) (value : String) :
    Escapes c (.text value) (.text (rewrite value)) ((segments value).foldl segmentContext c)
  | action {init terms : List Node} : (∀ n ∈ init, IsCommand n) → terms ≠ [] →
    (∀ t ∈ terms, IsTerm t) →
    Escapes .text (.action (init ++ [.command terms]))
      (.action (init ++ [.command (terms ++ [call htmlHelper])])) .text

/-- The same for all children of the root. -/
inductive EscapesAll : Context → List Node → List Node → Context → Prop where
  | nil (c : Context) : EscapesAll c [] [] c
  | cons {c c₁ c₂ : Context} {n e : Node} {ns es : List Node} : Escapes c n e c₁ →
    EscapesAll c₁ ns es c₂ → EscapesAll c (n :: ns) (e :: es) c₂

theorem escapes_item {n : Node} (hn : IsItem n) (h : escapeNode false c n = .ok (e, c')) :
    Escapes c n e c' := by
  cases hn with
  | text value =>
    obtain ⟨es, hes, rfl⟩ := escapeNode_text h
    obtain ⟨rfl, rfl⟩ := escapeAll_nil hes
    exact .text c value
  | @action commands hne hcommands =>
    obtain ⟨rfl, es, hes, rfl⟩ := escapeNode_action h
    rcases List.eq_nil_or_concat commands with rfl | ⟨init, last, rfl⟩
    · exact absurd rfl hne
    · rw [List.concat_eq_append] at hcommands hes ⊢
      have hinit : ∀ n ∈ init, IsCommand n := fun n hn => hcommands n (by simp [hn])
      obtain @⟨terms, hterms, hts⟩ := hcommands last (by simp)
      rw [Bool.not_false, escapeAll_commands .text hinit hts] at hes
      cases hes
      simp only [Bool.false_eq_true, if_false, List.append_nil]
      exact .action hinit hterms hts

theorem escapesAll_items : ∀ {ns : List Node} {c c' : Context} {es : List Node},
    (∀ n ∈ ns, IsItem n) → escapeAll false c ns = .ok (es, c') → EscapesAll c ns es c'
  | [], c, c', es, _, h => by
    obtain ⟨rfl, rfl⟩ := escapeAll_nil h
    exact .nil _
  | n :: ns, c, c', es, hns, h => by
    obtain ⟨hn, hns⟩ := List.forall_mem_cons.1 hns
    obtain ⟨e, c₁, es, he, hes, rfl⟩ := escapeAll_cons h
    exact .cons (escapes_item hn he) (escapesAll_items hns hes)

theorem compile_true {name text : String} {t : Template}
    (h : Template.compile name text true = .ok t) :
    ∃ d, Document.ofText name text = .ok d ∧ Template.compile name text false = .ok ⟨d⟩ ∧
      d.escape = .ok t.document := by
  unfold Template.compile at h ⊢
  obtain ⟨d, hd, h⟩ := bind_ok h
  obtain ⟨e, he, h⟩ := bind_ok h
  cases h
  exact ⟨d, hd, by rw [hd]; rfl, he⟩

/-- **Reading and escaping.** The template is what is read without escaping, each child of the root
escaped. -/
theorem escapesAll_compile {name text : String} {d e : Document}
    (h : Document.ofText name text = .ok d) (he : d.escape = .ok e) :
    ∃ ns es c, d = .new name (.root ns) ∧ e = ⟨name, .root es, true⟩ ∧ Layout ns ∧
      EscapesAll .text ns es c := by
  obtain ⟨ns, rfl, hlayout⟩ := layout_ofText h
  unfold Document.escape at he
  simp only [Document.new, Bool.false_eq_true, if_false] at he
  split at he
  · rename_i root c hroot
    cases he
    obtain ⟨es, hes, rfl⟩ := escapeNode_other (by decide) (by decide) hroot
    exact ⟨ns, es, c, rfl, rfl, hlayout, escapesAll_items hlayout.items hes⟩
  · cases he

end Stencil.Autoescape
