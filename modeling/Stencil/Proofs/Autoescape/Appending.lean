import Mathlib
import Stencil.Proofs.Autoescape.Walking

/-!
# Escaping appends

Escaping a tree adds calls behind what is there and takes nothing away. A template that has been
read is refused for its first action right behind a text that ends inside of a start tag, and for
nothing else. If there is none, each action has the call behind the last term of its last command,
and that is all that is new.

Results:
* `context_texts`: the place behind a text is told by the last token of its markup.
* `outcome_layout`: what comes of the children of the root of a template.
* `escapeNode_extends`: any tree at all that is accepted only grows.
* `escape_appends`: both, for documents, and that a walk does it.
-/

namespace Stencil.Autoescape

open Stencil.Markup (Piece Segment)

/-! ## Texts that end in a tag -/

/-- The text ends inside of a start tag: without the line ends at its front, its last token before
the end is a start tag that is not closed. -/
def OpensTag (text : String) : Prop :=
  Markup.EndsIn .startTag (String.ofList (text.toList.dropWhile (· = '\n')))

/-- The last piece is a start tag that is not closed. -/
theorem getLast?_segments {ps : List Piece} (h : ps.getLast?.bind Piece.open? = some .startTag) :
    ∃ content, (ps.filterMap segment?).getLast? = some (.tag .startTag content false) := by
  rcases List.eq_nil_or_concat ps with rfl | ⟨init, p, rfl⟩
  · cases h
  · rw [List.concat_eq_append] at h ⊢
    simp only [List.getLast?_append, List.getLast?_singleton, Option.some_or, Option.bind_some,
      Piece.open?, Option.ite_none_right_eq_some, Option.some.injEq] at h
    obtain ⟨⟨-, hclosing⟩, hkind⟩ := h
    have hs : segment? p = some (.tag .startTag (Text.escapeChars p.parts.content) false) := by
      simp [segment?, hkind, hclosing]
    exact ⟨Text.escapeChars p.parts.content, by simp [hs]⟩

theorem opensTag_iff (text : String) : OpensTag text ↔
    ∃ content, (segments text).getLast? = some (.tag .startTag content false) := by
  rw [OpensTag, Markup.endsIn_iff (by decide), String.toList_ofList]
  constructor
  · exact getLast?_segments
  · rintro ⟨content, h⟩
    exact open_of_scan (Markup.scan_pieces _) _ content (List.mem_of_getLast? h)

/-- **Places.** From between tags, a text leads into a start tag if it ends in one, and between tags
again if not. -/
theorem context_texts (text : String) :
    (OpensTag text ∧ (segments text).foldl segmentContext .text = .tag) ∨
      ¬OpensTag text ∧ (segments text).foldl segmentContext .text = .text := by
  rw [opensTag_iff]
  rcases List.eq_nil_or_concat (segments text) with h | ⟨init, last, h⟩
  · rw [h]
    exact .inr ⟨by simp, rfl⟩
  · rw [h, List.concat_eq_append, List.foldl_append, List.getLast?_append]
    cases last with
    | plain cs => exact .inr ⟨by simp, rfl⟩
    | tag kind content closed => cases kind <;> cases closed <;> simp [segmentContext]

/-! ## Templates that have been read -/

/-- An action right behind a text that ends inside of a start tag. -/
def InTag (ns : List Node) (action : Node) : Prop :=
  ∃ before text after, ns = before ++ .text text :: action :: after ∧ action.kind = .action ∧
    OpensTag text

/-- The first of them. -/
def FirstInTag (ns : List Node) (action : Node) : Prop :=
  ∃ before text after, ns = before ++ .text text :: action :: after ∧ action.kind = .action ∧
    OpensTag text ∧ ∀ a, ¬InTag (before ++ [.text text]) a

/-- A child of the root and what it becomes. -/
inductive Appended : Node → Node → Prop where
  | text (value : String) : Appended (.text value) (.text (rewrite value))
  | action {init terms : List Node} : Appended (.action (init ++ [.command terms]))
    (.action (init ++ [.command (terms ++ [.identifier "html"])]))

/-- What comes of the children of the root. -/
inductive Outcome (ns : List Node) : Except Error (List Node × Context) → Prop where
  | ok {es : List Node} {c : Context} : (∀ a, ¬InTag ns a) → List.Forall₂ Appended ns es →
    Outcome ns (.ok (es, c))
  | error {action : Node} : FirstInTag ns action →
    Outcome ns (.error (noHelper .attributeName action))

/-- The first node is a text that ends in a start tag, with an action behind it. -/
def Clash (n : Node) (ns : List Node) (action : Node) : Prop :=
  ∃ text, n = .text text ∧ ns.head? = some action ∧ action.kind = .action ∧ OpensTag text

theorem not_inTag_nil (a : Node) : ¬InTag [] a := by
  rintro ⟨before, text, after, h, -⟩
  simp at h

theorem inTag_cons {n : Node} {ns : List Node} {a : Node} :
    InTag (n :: ns) a ↔ Clash n ns a ∨ InTag ns a := by
  constructor
  · rintro ⟨before, text, after, h, hk, ht⟩
    cases before with
    | nil =>
      obtain ⟨rfl, rfl⟩ := List.cons.inj h
      exact .inl ⟨text, rfl, rfl, hk, ht⟩
    | cons b before =>
      obtain ⟨rfl, rfl⟩ := List.cons.inj h
      exact .inr ⟨before, text, after, rfl, hk, ht⟩
  · rintro (⟨text, rfl, hhead, hk, ht⟩ | ⟨before, text, after, rfl, hk, ht⟩)
    · obtain ⟨after, rfl⟩ := List.head?_eq_some_iff.1 hhead
      exact ⟨[], text, after, rfl, hk, ht⟩
    · exact ⟨n :: before, text, after, rfl, hk, ht⟩

theorem not_clash_nil (n a : Node) : ¬Clash n [] a := by
  rintro ⟨text, -, hhead, -⟩
  cases hhead

theorem FirstInTag.inTag {ns : List Node} {a : Node} (h : FirstInTag ns a) : InTag ns a := by
  obtain ⟨before, text, after, hns, hk, ht, -⟩ := h
  exact ⟨before, text, after, hns, hk, ht⟩

/-- The front of what is behind a node tells whether it clashes. -/
theorem clash_congr {n : Node} {ns ms : List Node} (h : ns.head? = ms.head?) (a : Node) :
    Clash n ns a ↔ Clash n ms a := by
  unfold Clash
  rw [h]

theorem firstInTag_cons {n : Node} {ns : List Node} {a : Node} : FirstInTag (n :: ns) a ↔
    Clash n ns a ∨ (∀ b, ¬Clash n ns b) ∧ FirstInTag ns a := by
  have hhead : ∀ (before : List Node) (text : String) (rest : List Node),
      (before ++ [Node.text text]).head? = (before ++ .text text :: rest).head? := by
    intro before text rest
    cases before <;> rfl
  constructor
  · rintro ⟨before, text, after, h, hk, ht, hfirst⟩
    cases before with
    | nil =>
      obtain ⟨rfl, rfl⟩ := List.cons.inj h
      exact .inl ⟨text, rfl, rfl, hk, ht⟩
    | cons b before =>
      obtain ⟨rfl, rfl⟩ := List.cons.inj h
      refine .inr ⟨fun c hc => ?_, before, text, after, rfl, hk, ht, fun c hc => ?_⟩
      · exact hfirst c (inTag_cons.2 (.inl ((clash_congr (hhead _ _ _) c).2 hc)))
      · exact hfirst c (inTag_cons.2 (.inr hc))
  · rintro (⟨text, rfl, h, hk, ht⟩ | ⟨hn, before, text, after, rfl, hk, ht, hfirst⟩)
    · obtain ⟨after, rfl⟩ := List.head?_eq_some_iff.1 h
      refine ⟨[], text, after, rfl, hk, ht, fun c hc => ?_⟩
      rcases inTag_cons.1 hc with hc | hc
      · exact not_clash_nil _ c hc
      · exact not_inTag_nil c hc
    · refine ⟨n :: before, text, after, rfl, hk, ht, fun c hc => ?_⟩
      rcases inTag_cons.1 hc with hc | hc
      · exact hn c ((clash_congr (hhead _ _ _) c).1 hc)
      · exact hfirst c hc

theorem FirstInTag.unique : ∀ {ns : List Node} {a b : Node}, FirstInTag ns a → FirstInTag ns b →
    a = b
  | [], a, _, ha, _ => absurd ha.inTag (not_inTag_nil a)
  | n :: ns, a, b, ha, hb => by
    rcases firstInTag_cons.1 ha with hac | ⟨hna, ha⟩ <;>
      rcases firstInTag_cons.1 hb with hbc | ⟨hnb, hb⟩
    · obtain ⟨-, -, hheada, -⟩ := hac
      obtain ⟨-, -, hheadb, -⟩ := hbc
      exact Option.some.inj (hheada.symm.trans hheadb)
    · exact absurd hac (hnb a)
    · exact absurd hbc (hna b)
    · exact ha.unique hb

/-- A node that is accepted and leads back between tags leaves the outcome to those behind it. -/
theorem outcome_cons {n e : Node} {ns : List Node} (hn : ∀ a, ¬Clash n ns a)
    (he : escapeNode false .text n = .ok (e, .text)) (happended : Appended n e)
    (h : Outcome ns (escapeAll false .text ns)) :
    Outcome (n :: ns) (escapeAll false .text (n :: ns)) := by
  rw [escapeAll, Bool.false_and, he]
  simp only [bind, Except.bind]
  generalize escapeAll false .text ns = r at h
  cases h with
  | ok hno hall =>
    refine .ok (fun a ha => ?_) (.cons happended hall)
    rcases inTag_cons.1 ha with ha | ha
    · exact hn a ha
    · exact hno a ha
  | error hfirst => exact .error (firstInTag_cons.2 (.inr ⟨hn, hfirst⟩))

theorem escapeNode_textItem (value : String) (c : Context) :
    escapeNode false c (.text value) =
      .ok (.text (rewrite value), (segments value).foldl segmentContext c) := by
  rw [Node.text, escapeNode, escapeText_eq]
  rfl

theorem escapeNode_actionItem {init terms : List Node} (hinit : ∀ n ∈ init, IsCommand n)
    (hterms : ∀ t ∈ terms, IsTerm t) :
    escapeNode false .text (.action (init ++ [.command terms])) =
      .ok (.action (init ++ [.command (terms ++ [.identifier "html"])]), .text) := by
  have h := escapeAll_commands .text hinit hterms
  rw [Node.action, escapeNode]
  simp only [Context.atAction, Context.helper?, Bool.not_false, h]
  simp [bind, Except.bind, pure, Except.pure, Node.action, call, htmlHelper]

/-- **The root.** Its children are refused for the first action in a tag, or each gets what it is to
get. -/
theorem outcome_layout : ∀ {ns : List Node}, Layout ns → Outcome ns (escapeAll false .text ns)
  | [], _ => .ok not_inTag_nil .nil
  | n :: ns, h => by
    obtain ⟨hn, hns⟩ := List.forall_mem_cons.1 h.items
    obtain ⟨hhead, hchain⟩ := List.isChain_cons.1 h.alternate
    have ih := outcome_layout ⟨hns, hchain⟩
    cases hn with
    | text value =>
      rcases context_texts value with ⟨hopens, hplace⟩ | ⟨hopens, hplace⟩
      · rw [escapeAll, Bool.false_and, escapeNode_textItem, hplace]
        cases ns with
        | nil =>
          refine .ok (fun a ha => ?_) (.cons (.text value) .nil)
          rcases inTag_cons.1 ha with ha | ha
          · exact not_clash_nil _ a ha
          · exact not_inTag_nil a ha
        | cons m ns =>
          cases hns m List.mem_cons_self with
          | text => exact absurd rfl (hhead _ rfl rfl)
          | @action commands =>
            exact .error (firstInTag_cons.2 (.inl ⟨value, rfl, rfl, rfl, hopens⟩))
      · refine outcome_cons (fun a ha => ?_) ?_ (.text value) ih
        · obtain ⟨text, htext, -, -, ht⟩ := ha
          cases htext
          exact hopens ht
        · rw [escapeNode_textItem, hplace]
    | @action commands hne hcommands =>
      rcases List.eq_nil_or_concat commands with rfl | ⟨init, last, rfl⟩
      · exact absurd rfl hne
      rw [List.concat_eq_append] at hcommands ⊢
      obtain @⟨terms, -, hterms⟩ := hcommands last (by simp)
      have hinit : ∀ n ∈ init, IsCommand n := fun n hn => hcommands n (by simp [hn])
      refine outcome_cons (fun a ha => ?_) (escapeNode_actionItem hinit hterms) .action ih
      obtain ⟨text, htext, -⟩ := ha
      cases htext

theorem Appended.unique {n e e' : Node} (h : Appended n e) (h' : Appended n e') : e = e' := by
  cases h with
  | text value =>
    generalize hn : Node.text value = n at h'
    cases h' with
    | text => cases hn; rfl
    | action => cases hn
  | @action init terms =>
    generalize hn : Node.action (init ++ [.command terms]) = n at h'
    cases h' with
    | text => cases hn
    | action =>
      have hchildren := congrArg Node.children hn
      obtain ⟨rfl, hlast⟩ := List.append_inj' hchildren rfl
      cases hlast
      rfl

theorem size_appended {n e : Node} (h : Appended n e) :
    e.size = n.size + if n.kind = .action then 1 else 0 := by
  cases h with
  | text value => rfl
  | action =>
    simp [Node.action, Node.command, Node.identifier, Node.size, Node.sizeAll]
    omega

/-- Each action has one node more. -/
theorem sizeAll_appended {ns es : List Node} (h : List.Forall₂ Appended ns es) :
    Node.sizeAll es = Node.sizeAll ns + ns.countP (·.kind = .action) := by
  induction h with
  | nil => rfl
  | cons hn _ ih =>
    rw [Node.sizeAll, Node.sizeAll, ih, size_appended hn, List.countP_cons]
    simp only [decide_eq_true_eq]
    omega

/-! ## All trees -/

/-- What may be added to a tree: identifiers `html`, with nothing but others of them below. -/
inductive Added : Node → Prop where
  | mk {children : List Node} : (∀ n ∈ children, Added n) → Added ⟨.identifier, "html", children⟩

mutual

/-- The second tree is the first with calls added behind the children of its nodes, and with other
values of its texts. -/
inductive Extends : Node → Node → Prop where
  | mk {kind : NodeKind} {value value' : String} {children children' : List Node} :
    (kind ≠ .text → value' = value) → ExtendsAll children children' →
    Extends ⟨kind, value, children⟩ ⟨kind, value', children'⟩

inductive ExtendsAll : List Node → List Node → Prop where
  | added {es : List Node} : (∀ e ∈ es, Added e) → ExtendsAll [] es
  | cons {n e : Node} {ns es : List Node} : Extends n e → ExtendsAll ns es →
    ExtendsAll (n :: ns) (e :: es)

end

mutual

theorem Extends.refl : (n : Node) → Extends n n
  | ⟨_, _, children⟩ => .mk (fun _ => rfl) (ExtendsAll.refl children)

theorem ExtendsAll.refl : (ns : List Node) → ExtendsAll ns ns
  | [] => .added (by simp)
  | n :: ns => .cons (Extends.refl n) (ExtendsAll.refl ns)

end

theorem added_call : Added (call htmlHelper) := .mk (by simp)

theorem added_nestedCall : Added ((call htmlHelper).push (call htmlHelper)) := by
  refine .mk fun n hn => ?_
  obtain rfl : n = call htmlHelper := by simpa [call, Node.identifier] using hn
  exact added_call

/-- More may be added behind what has been added. -/
theorem ExtendsAll.append {added : List Node} (hadded : ∀ n ∈ added, Added n) :
    ∀ {ns es : List Node}, ExtendsAll ns es → ExtendsAll ns (es ++ added)
  | _, _, .added hes => .added fun n hn => (List.mem_append.1 hn).elim (hes n) (hadded n)
  | _, _, .cons hn hns => .cons hn (hns.append hadded)

theorem ExtendsAll.withCall {ns es : List Node} (h : ExtendsAll ns es) (called : Bool) :
    ExtendsAll ns (withCall called es) := by
  cases called with
  | false => exact h
  | true =>
    refine h.append fun n hn => ?_
    rw [List.mem_singleton.1 hn]
    exact added_call

mutual

/-- **All trees.** A node that is accepted only grows. -/
theorem escapeNode_extends : (n : Node) → ∀ {called : Bool} {c c' : Context} {e : Node},
    escapeNode called c n = .ok (e, c') → Extends n e
  | ⟨kind, value, children⟩, called, c, c', e, h => by
    by_cases ht : kind = .text
    · subst ht
      obtain ⟨es, hes, rfl⟩ := escapeNode_text h
      exact .mk (by simp) ((escapeAll_extends children hes).withCall called)
    by_cases ha : kind = .action
    · subst ha
      obtain ⟨-, es, hes, rfl⟩ := escapeNode_action h
      refine .mk (fun _ => rfl) ((escapeAll_extends children hes).append ?_)
      cases called with
      | false => simp
      | true =>
        intro n hn
        rw [List.mem_singleton.1 hn]
        exact added_nestedCall
    · obtain ⟨es, hes, rfl⟩ := escapeNode_other ht ha h
      exact .mk (fun _ => rfl) ((escapeAll_extends children hes).withCall called)

theorem escapeAll_extends : (ns : List Node) → ∀ {last : Bool} {c c' : Context} {es : List Node},
    escapeAll last c ns = .ok (es, c') → ExtendsAll ns es
  | [], last, c, c', es, h => by
    obtain ⟨rfl, -⟩ := escapeAll_nil h
    exact .added (by simp)
  | n :: ns, last, c, c', es, h => by
    obtain ⟨e, c₁, es, he, hes, rfl⟩ := escapeAll_cons h
    exact .cons (escapeNode_extends n he) (escapeAll_extends ns hes)

end

/-! ## Documents -/

/-- The error of a template with an action in a tag. -/
def inTagError (name : String) (action : Node) : Error :=
  (Error.make .escape "action appears where no escaper applies"
    [("context", "AttrName"), ("action", action.source)]).within
      (.make .escape "failed to escape template" [("template", name)])

theorem escape_new {name : String} {ns : List Node} (hlayout : Layout ns) :
    (∃ action, FirstInTag ns action ∧
      (Document.new name (.root ns)).escape = .error (inTagError name action)) ∨
    (∀ a, ¬InTag ns a) ∧ ∃ es, List.Forall₂ Appended ns es ∧
      (Document.new name (.root ns)).escape = .ok ⟨name, .root es, true⟩ := by
  have h := outcome_layout hlayout
  have hroot : escapeNode false .text (.root ns) =
      escapeAll false .text ns >>= fun r => pure (.root r.1, r.2) := by
    rw [Node.root, escapeNode]
    · rfl
    · simp
    · simp
  generalize escapeAll false .text ns = r at h hroot
  cases h with
  | ok hno hall =>
    refine .inr ⟨hno, _, hall, ?_⟩
    simp only [Document.escape, Document.new, Bool.false_eq_true, if_false, hroot]
    rfl
  | @error action hfirst =>
    refine .inl ⟨action, hfirst, ?_⟩
    simp only [Document.escape, Document.new, Bool.false_eq_true, if_false, hroot]
    rfl

/-- What a template that has been read is refused for, and what it becomes if it is not. -/
structure Appending (d : Document) : Prop where
  layout : d = .new d.name (.root d.root.children) ∧ Layout d.root.children
  refused_iff : (∃ e, d.escape = .error e) ↔ ∃ action, InTag d.root.children action
  error_iff : ∀ e, d.escape = .error e ↔
    ∃ action, FirstInTag d.root.children action ∧ e = inTagError d.name action ∧ e.kind = .escape
  ok_iff : ∀ e, d.escape = .ok e ↔ (∀ action, ¬InTag d.root.children action) ∧
    ∃ es, List.Forall₂ Appended d.root.children es ∧ e = ⟨d.name, .root es, true⟩
  size : ∀ e, d.escape = .ok e →
    e.root.size = d.root.size + d.root.children.countP (·.kind = .action)

section

variable {name : String} {ns es : List Node} {action : Node}

theorem appending_of_refused (hlayout : Layout ns) (hfirst : FirstInTag ns action)
    (hd : (Document.new name (.root ns)).escape = .error (inTagError name action)) :
    Appending (.new name (.root ns)) where
  layout := ⟨rfl, hlayout⟩
  refused_iff := iff_of_true ⟨_, hd⟩ ⟨action, hfirst.inTag⟩
  error_iff e := by
    rw [hd]
    constructor
    · intro he
      cases he
      exact ⟨action, hfirst, rfl, rfl⟩
    · rintro ⟨a, ha, rfl, -⟩
      rw [hfirst.unique ha]
      rfl
  ok_iff e := by
    rw [hd]
    refine iff_of_false (fun he => ?_) fun he => he.1 action hfirst.inTag
    cases he
  size e he := by
    rw [hd] at he
    cases he

theorem appending_of_accepted (hlayout : Layout ns) (hno : ∀ a, ¬InTag ns a)
    (hall : List.Forall₂ Appended ns es)
    (hd : (Document.new name (.root ns)).escape = .ok ⟨name, .root es, true⟩) :
    Appending (.new name (.root ns)) where
  layout := ⟨rfl, hlayout⟩
  refused_iff := by
    rw [hd]
    refine iff_of_false ?_ fun ⟨a, ha⟩ => hno a ha
    rintro ⟨e, he⟩
    cases he
  error_iff e := by
    rw [hd]
    refine iff_of_false (fun he => ?_) fun ⟨a, ha, _⟩ => hno a ha.inTag
    cases he
  ok_iff e := by
    rw [hd]
    constructor
    · intro he
      cases he
      exact ⟨hno, es, hall, rfl⟩
    · rintro ⟨-, es', hall', rfl⟩
      have hunique : Relator.RightUnique Appended := fun _ _ _ => Appended.unique
      have hes : es = es' := List.right_unique_forall₂' hunique hall hall'
      rw [hes]
      rfl
  size e he := by
    rw [hd] at he
    cases he
    simp only [Document.new, Node.root, Node.size, sizeAll_appended hall]
    omega

end

theorem appending_ofText {name text : String} {d : Document}
    (h : Document.ofText name text = .ok d) : Appending d := by
  obtain ⟨ns, rfl, hlayout⟩ := layout_ofText h
  rcases @escape_new name ns hlayout with ⟨action, hfirst, hd⟩ | ⟨hno, es, hall, hd⟩
  · exact appending_of_refused hlayout hfirst hd
  · exact appending_of_accepted hlayout hno hall hd

theorem extends_escape {d e : Document} (h : d.escape = .ok e) : Extends d.root e.root := by
  cases hd : d.escaped with
  | true =>
    rw [Document.escape, if_pos hd] at h
    cases h
    exact .refl d.root
  | false =>
    obtain ⟨c, hroot⟩ := escape_ok h hd
    exact escapeNode_extends d.root hroot

/-- **Appending.** A template that has been read is refused for an action in a tag only, and else
gets a call for each of its actions and nothing more. Any other document that is accepted only
grows. All of this is done by a walk, which pushes calls onto nodes that it has yet to enter. -/
theorem escape_appends :
    (∀ name text d, Document.ofText name text = .ok d → Appending d) ∧
      (∀ d e : Document, d.escape = .ok e → Extends d.root e.root) ∧
      ∀ d : Document, d.escaped = false → Walked d :=
  ⟨fun _ _ _ => appending_ofText, fun _ _ => extends_escape, fun _ => walked_escape⟩

/-- A template that is refused for the first of two actions, and a tree that no text has. -/
theorem escape_appends_attribute :
    Document.ofText "t" "\n<a \x7b\x7b.B\x7d\x7d\x7b\x7b.C\x7d\x7d" = .ok (.new "t" (.root
        [.text "\n<a ", .action [.command [.field ".B"]], .action [.command [.field ".C"]]])) ∧
      Appending (.new "t" (.root
        [.text "\n<a ", .action [.command [.field ".B"]], .action [.command [.field ".C"]]])) ∧
      (Document.new "t" (.action [.action [.field ".X"]])).escape =
        .ok ⟨"t", .action [.action [.field ".X", (call htmlHelper).push (call htmlHelper)]],
          true⟩ ∧
      Extends (.action [.action [.field ".X"]])
        (.action [.action [.field ".X", (call htmlHelper).push (call htmlHelper)]]) ∧
      Walked (.new "t" (.action [.action [.field ".X"]])) := by
  have hread : Document.ofText "t" "\n<a \x7b\x7b.B\x7d\x7d\x7b\x7b.C\x7d\x7d" =
      .ok (.new "t" (.root [.text "\n<a ", .action [.command [.field ".B"]],
        .action [.command [.field ".C"]]])) := by
    cbv
  have hescape : (Document.new "t" (.action [.action [.field ".X"]])).escape =
      .ok ⟨"t", .action [.action [.field ".X", (call htmlHelper).push (call htmlHelper)]],
        true⟩ := by
    cbv
  exact ⟨hread, escape_appends.1 _ _ _ hread, hescape, escape_appends.2.1 _ _ hescape,
    escape_appends.2.2 _ rfl⟩

end Stencil.Autoescape
