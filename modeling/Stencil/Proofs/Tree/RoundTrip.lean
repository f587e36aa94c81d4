import Mathlib
import Stencil.Proofs.Tree.Reading

/-!
# Trees as text and back

A tree that has been read is well formed, and each well-formed tree is read from the text that it is
written as. So the reader makes the well-formed trees and no others.

Results:
* `proper_template`: what a template stands for is well formed.
* `template_source`: a well-formed tree is written as a template that stands for it.
* `ofText_source`: reading and writing are inverse on well-formed trees.
-/

namespace Stencil

open Grammar

/-! ## Well-formed trees -/

/-- One segment of a pipeline: a command with at least one term, each spelled as a term is. -/
inductive ProperCommand : Node → Prop where
  | mk {terms : List Node} : terms ≠ [] → (∀ t ∈ terms, ∃ word, Term word t) →
    ProperCommand (.command terms)

/-- A child of the root: a text that is not empty and opens no action, or an action with at least
one command. -/
inductive ProperItem : Node → Prop where
  | text {cs : List Char} : cs ≠ [] → Plain cs → ProperItem (.text (String.ofList cs))
  | action {commands : List Node} : commands ≠ [] → (∀ c ∈ commands, ProperCommand c) →
    ProperItem (.action commands)

/-- Behind a text there is no text, and no action if the text ends in a brace. -/
def MayFollow (m n : Node) : Prop :=
  m.kind = .text → n.kind = .action ∧ m.value.toList.getLast? ≠ some '\x7b'

structure Proper (ns : List Node) : Prop where
  items : ∀ n ∈ ns, ProperItem n
  follow : ns.IsChain MayFollow

/-- A tree as template text is read. -/
inductive WellFormed : Node → Prop where
  | mk {ns : List Node} : Proper ns → WellFormed (.root ns)

/-! ## From templates to trees -/

theorem Body.proper_terms {next body : List Char} {segments : List (List Node)}
    (h : Body next body segments) : ∀ terms ∈ segments, ∀ t ∈ terms, ∃ word, Term word t := by
  induction h with
  | nil => simp
  | blank _ _ ih => exact ih
  | pipe _ ih => exact List.forall_mem_cons.2 ⟨by simp, ih⟩
  | term ht _ _ ih =>
    obtain ⟨hfirst, hothers⟩ := List.forall_mem_cons.1 ih
    exact List.forall_mem_cons.2 ⟨List.forall_mem_cons.2 ⟨⟨_, ht⟩, hfirst⟩, hothers⟩

theorem properItem_body {next body : List Char} {segments : List (List Node)}
    (h : Body next body segments) (hsegments : [] ∉ segments) :
    ProperItem (.action (segments.map .command)) := by
  obtain ⟨terms, others, rfl⟩ := h.exists_cons
  refine .action (by simp) fun c hc => ?_
  obtain ⟨ts, hts, rfl⟩ := List.mem_map.1 hc
  exact .mk (fun hnil => hsegments (hnil ▸ hts)) (Body.proper_terms h ts hts)

theorem Proper.action {commands ns : List Node} (h : ProperItem (.action commands))
    (hns : Proper ns) : Proper (.action commands :: ns) where
  items := List.forall_mem_cons.2 ⟨h, hns.items⟩
  follow := List.isChain_cons.2 ⟨fun _ _ hk => absurd hk NodeKind.noConfusion, hns.follow⟩

theorem Proper.piece {piece : List Char} {commands ns : List Node} (hpiece : Piece piece)
    (h : Proper (.action commands :: ns)) : Proper (textOf piece ++ .action commands :: ns) := by
  obtain ⟨hplain, hlast⟩ := piece_iff.1 hpiece
  by_cases hne : piece = []
  · rwa [textOf, if_pos hne]
  · rw [textOf, if_neg hne]
    refine ⟨List.forall_mem_cons.2 ⟨.text hne hplain, h.items⟩, ?_⟩
    refine List.isChain_cons_cons.2 ⟨fun _ => ⟨rfl, ?_⟩, h.follow⟩
    rwa [Node.text, String.toList_ofList]

theorem proper_last {last : List Char} (h : Plain last) : Proper (textOf last) := by
  by_cases hne : last = []
  · rw [textOf, if_pos hne]
    exact ⟨by simp, .nil⟩
  · rw [textOf, if_neg hne]
    refine ⟨fun n hn => ?_, .singleton _⟩
    rw [List.mem_singleton.1 hn]
    exact .text hne h

theorem proper_actions {cs : List Char} {nodes ns : List Node} (h : Actions cs nodes)
    (hns : Proper ns) : Proper (nodes ++ ns) := by
  induction h with
  | nil => exact hns
  | cons hpiece hbody hsegments _ ih =>
    rw [List.append_assoc, List.cons_append]
    exact .piece hpiece (.action (properItem_body hbody hsegments) ih)

theorem proper_template {cs : List Char} {nodes : List Node} (h : Template cs nodes) :
    Proper nodes := by
  cases h with
  | mk hactions hlast => exact proper_actions hactions (proper_last hlast)

/-! ## From trees to templates -/

theorem sourceChars_term {word : List Char} {t : Node} (h : Term word t) :
    t.sourceChars = word := by
  cases h <;> simp [Node.field, Node.identifier, Node.sourceChars]

/-- Terms with blanks between them, in front of the rest of a body. -/
theorem body_terms {next tail : List Char} {segments : List (List Node)}
    (htail : Body next tail ([] :: segments)) (hends : NameEnds (tail ++ next)) :
    ∀ {terms : List Node}, terms ≠ [] → (∀ t ∈ terms, ∃ word, Term word t) →
      Body next (List.intercalate [' '] (Node.sourcesOf terms) ++ tail) (terms :: segments)
  | [], hne, _ => absurd rfl hne
  | [t], _, h => by
    obtain ⟨word, ht⟩ := h t (by simp)
    rw [Node.sourcesOf, Node.sourcesOf, List.intercalate_singleton, sourceChars_term ht]
    exact .term ht hends htail
  | t :: u :: terms, _, h => by
    obtain ⟨⟨word, ht⟩, hterms⟩ := List.forall_mem_cons.1 h
    have ih := body_terms htail hends (List.cons_ne_nil u terms) hterms
    rw [Node.sourcesOf] at ih ⊢
    rw [Node.sourcesOf, List.intercalate_cons_cons, sourceChars_term ht, List.append_assoc,
      List.append_assoc]
    refine .term ht ?_ (.blank rfl ih)
    rintro c hc
    cases hc
    rfl

/-- Commands with pipes between them. -/
theorem body_commands {next : List Char} (hnext : NameEnds next) : ∀ {segments : List (List Node)},
    segments ≠ [] → (∀ terms ∈ segments, terms ≠ [] ∧ ∀ t ∈ terms, ∃ word, Term word t) →
      Body next (List.intercalate [' ', '|', ' '] (Node.sourcesOf (segments.map .command))) segments
  | [], hne, _ => absurd rfl hne
  | [terms], _, h => by
    obtain ⟨hne, hterms⟩ := h terms (by simp)
    have hbody := body_terms .nil hnext hne hterms
    rw [List.append_nil] at hbody
    rwa [List.map_singleton, Node.sourcesOf, Node.sourcesOf, List.intercalate_singleton]
  | terms :: others :: segments, _, h => by
    obtain ⟨⟨hne, hterms⟩, hothers⟩ := List.forall_mem_cons.1 h
    have ih := body_commands hnext (List.cons_ne_nil others segments) hothers
    have hends : ∀ cs, NameEnds (' ' :: cs) := by
      rintro cs c hc
      cases hc
      rfl
    have hbody := body_terms (.blank (by decide : Action.isBlank ' ' = true)
      (.pipe (.blank (by decide : Action.isBlank ' ' = true) ih))) (hends _) hne hterms
    rw [List.map_cons, Node.sourcesOf] at hbody ⊢
    rw [List.map_cons, Node.sourcesOf, List.intercalate_cons_cons, List.append_assoc]
    exact hbody

/-- The commands of an action, by their terms. -/
theorem exists_segments : ∀ {commands : List Node}, (∀ c ∈ commands, ProperCommand c) →
    ∃ segments : List (List Node), commands = segments.map .command ∧
      ∀ terms ∈ segments, terms ≠ [] ∧ ∀ t ∈ terms, ∃ word, Term word t
  | [], _ => ⟨[], rfl, by simp⟩
  | c :: commands, h => by
    obtain ⟨hc, hcommands⟩ := List.forall_mem_cons.1 h
    obtain ⟨segments, rfl, hsegments⟩ := exists_segments hcommands
    obtain @⟨terms, hne, hterms⟩ := hc
    exact ⟨terms :: segments, rfl, List.forall_mem_cons.2 ⟨⟨hne, hterms⟩, hsegments⟩⟩

/-- **One action**, with the piece before it. -/
theorem template_action {piece rest : List Char} {commands nodes : List Node}
    (hpiece : Piece piece) (h : ProperItem (.action commands)) (hrest : Template rest nodes) :
    Template (piece ++ (Node.action commands).sourceChars ++ rest)
      (textOf piece ++ .action commands :: nodes) := by
  cases h with
  | action hne hcommands =>
    obtain ⟨segments, rfl, hsegments⟩ := exists_segments hcommands
    have hbody : Body closing _ segments :=
      body_commands (by rintro c hc; cases hc; rfl) (by simpa using hne) hsegments
    have := hrest.behind hpiece hbody fun hnil => (hsegments [] hnil).1 rfl
    simpa [Node.action, Node.sourceChars] using this

/-- **Trees.** -/
theorem template_items : ∀ {ns : List Node}, Proper ns → Template (Node.sourcesOf ns).flatten ns
  | [], _ => .mk .nil plain_nil
  | n :: ns, h => by
    obtain ⟨hn, hitems⟩ := List.forall_mem_cons.1 h.items
    obtain ⟨hhead, hchain⟩ := List.isChain_cons.1 h.follow
    rw [Node.sourcesOf, List.flatten_cons]
    cases hn with
    | action hne hcommands =>
      exact template_action piece_nil (.action hne hcommands) (template_items ⟨hitems, hchain⟩)
    | @text cs hne hplain =>
      -- A text goes together with the action behind it, if it is not the last.
      have hsource : (Node.text (String.ofList cs)).sourceChars = cs := by
        simp [Node.text, Node.sourceChars]
      have htext : textOf cs = [.text (String.ofList cs)] := if_neg hne
      rw [hsource]
      cases ns with
      | nil =>
        rw [← htext]
        simpa [Node.sourcesOf] using Template.mk .nil hplain
      | cons m ns =>
        obtain ⟨hm, hns⟩ := List.forall_mem_cons.1 hitems
        have hproper : Proper ns := ⟨hns, (List.isChain_cons.1 hchain).2⟩
        obtain ⟨haction, hlast⟩ := hhead m rfl rfl
        rw [Node.text, String.toList_ofList] at hlast
        cases hm with
        | text _ _ => cases haction
        | action hne hcommands =>
          have := template_action (piece_iff.2 ⟨hplain, hlast⟩) (.action hne hcommands)
            (template_items hproper)
          rwa [htext, List.append_assoc] at this

theorem template_source {r : Node} (h : WellFormed r) :
    ∃ nodes, r = .root nodes ∧ Template r.source.toList nodes := by
  cases h with
  | @mk ns h =>
    refine ⟨ns, rfl, ?_⟩
    have := template_items h
    rwa [Node.source, String.toList_ofList, Node.root, Node.sourceChars]

/-! ## Reading and writing -/

theorem wellFormed_ofText {name text : String} {d : Document}
    (h : Document.ofText name text = .ok d) : WellFormed d.root ∧ d = .new name d.root := by
  obtain ⟨nodes, hnodes, rfl⟩ := template_of_ofText h
  exact ⟨.mk (proper_template hnodes), rfl⟩

theorem ofText_wellFormed {r : Node} (h : WellFormed r) (name : String) :
    Document.ofText name r.source = .ok (.new name r) := by
  obtain ⟨nodes, hr, hnodes⟩ := template_source h
  rw [ofText_template hnodes, hr]

/-- **Round trip.** What is read is well formed, a well-formed tree is read back from the text that
it is written as, and so is what has been read. -/
theorem ofText_source :
    (∀ name text d, Document.ofText name text = .ok d → WellFormed d.root) ∧
      (∀ r, WellFormed r → ∀ name, Document.ofText name r.source = .ok (.new name r)) ∧
      ∀ name text d, Document.ofText name text = .ok d →
        Document.ofText name d.root.source = .ok d := by
  refine ⟨fun name text d h => (wellFormed_ofText h).1, fun r h name => ofText_wellFormed h name,
    fun name text d h => ?_⟩
  obtain ⟨hwell, hd⟩ := wellFormed_ofText h
  rw [ofText_wellFormed hwell]
  exact congrArg Except.ok hd.symm

/-- Braces in the texts, and an action with its blanks in other places. -/
theorem ofText_source_braces :
    let d := Document.new "t" (.root [.text "a\x7b ",
      .action [.command [.field ".X"], .command [.identifier "html"]], .text "\x7d"])
    Document.ofText "t" "a\x7b \x7b\x7b .X|html\x7d\x7d\x7d" = .ok d ∧ WellFormed d.root ∧
      d.root.source = "a\x7b \x7b\x7b.X | html\x7d\x7d\x7d" ∧
      Document.ofText "t" d.root.source = .ok d ∧
      Document.ofText "u" d.root.source = .ok (.new "u" d.root) := by
  intro d
  have hread : Document.ofText "t" "a\x7b \x7b\x7b .X|html\x7d\x7d\x7d" = .ok d := by cbv
  obtain ⟨hwell, hwritten, hagain⟩ := ofText_source
  have hd := hwell _ _ _ hread
  exact ⟨hread, hd, by cbv, hagain _ _ _ hread, hwritten _ hd "u"⟩

end Stencil
