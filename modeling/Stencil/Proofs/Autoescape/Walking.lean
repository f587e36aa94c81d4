import Stencil.Proofs.Autoescape.Trees
import Stencil.Tree.Walk

/-!
# Autoescaping as a walk

Autoescaping is written as a recursion over the tree as it was. It can also be done by a walk that
edits the tree on its way down: entering a text rewrites it, and entering an action pushes the call
onto its last child, which the walk then enters with the call as one of its children. Both come to
the same for every tree, also where an action is called and passes a call on to its own call.

Results:
* `edit_escaper`: the walk through a node ends as the recursion does.
* `walked_escape`: so it does through a document.
-/

namespace Stencil.Autoescape

open Stencil.Node (edit editAll sizeAll)

/-- The children with the call of a helper pushed onto the last of them. -/
def callLast (helper : String) : List Node → List Node
  | [] => []
  | [n] => [n.push (call helper)]
  | n :: m :: ns => n :: callLast helper (m :: ns)

/-- Escapes each node as it is entered. The state is the place in the markup. -/
def escaper : Node.Editor Context
  | .leave, n, c => (n, c, none)
  | .enter, n, c =>
    match n.kind with
    | .text =>
      match escapeText c n.value with
      | .ok (value, c) => ({ n with value }, c, none)
      | .error e => (n, c, some e)
    | .action =>
      match c.atAction.helper? with
      | some helper => ({ n with children := callLast helper n.children }, c.atAction, none)
      | none => (n, c.atAction, some (noHelper c.atAction n))
    | _ => (n, c, none)

/-- A walk ends as a recursion does: with the same result and place, or with the same error. -/
inductive Agrees {α : Type} :
    Except Error (α × Context) → Option (α × Context × Option Error) → Prop where
  | ok (a : α) (c : Context) : Agrees (.ok (a, c)) (some (a, c, none))
  | error (e : Error) (a : α) (c : Context) : Agrees (.error e) (some (a, c, some e))

theorem Agrees.map {α β : Type} {x : Except Error (α × Context)}
    {r : Option (α × Context × Option Error)} (f : α → β) (h : Agrees x r) :
    Agrees (x >>= fun p => pure (f p.1, p.2)) (r.map fun p => (f p.1, p.2)) := by
  cases h with
  | ok a c => exact .ok (f a) c
  | error e a c => exact .error e (f a) c

/-! ## Nodes as the walk enters them -/

/-- The node with the call if it is called. -/
def entered (called : Bool) (n : Node) : Node := { n with children := withCall called n.children }

/-- The nodes, of which the last may be called. -/
def enteredAll (lastCalled : Bool) (ns : List Node) : List Node :=
  if lastCalled then callLast htmlHelper ns else ns

theorem enteredAll_nil (last : Bool) : enteredAll last [] = [] := by
  cases last <;> rfl

theorem enteredAll_cons (last : Bool) (n : Node) (ns : List Node) :
    enteredAll last (n :: ns) = entered (last && ns.isEmpty) n :: enteredAll last ns := by
  obtain ⟨kind, value, children⟩ := n
  cases last with
  | false => rfl
  | true => cases ns <;> rfl

theorem callLast_concat (helper : String) (n : Node) : ∀ ns : List Node,
    callLast helper (ns ++ [n]) = ns ++ [n.push (call helper)]
  | [] => rfl
  | [_] => rfl
  | m :: k :: ns => congrArg (m :: ·) (callLast_concat helper n (k :: ns))

/-- The children of an action that has been entered. One that is called has passed a call on to its
own call. -/
theorem callLast_withCall (called : Bool) (ns : List Node) :
    callLast htmlHelper (withCall called ns) = enteredAll (!called) ns ++
      if called then [(call htmlHelper).push (call htmlHelper)] else [] := by
  cases called with
  | false => exact (List.append_nil _).symm
  | true => exact callLast_concat htmlHelper (call htmlHelper) ns

/-! ## Steps of the walk -/

variable {depth : Nat} {c c' : Context}

/-- A node that is accepted has the walk go through its new children. -/
theorem edit_of_enter {n m : Node} (h : escaper .enter n c = (m, c', none)) :
    edit escaper (depth + 1) n c = (editAll (edit escaper depth) m.children c').map
      fun p => ({ m with children := p.1 }, p.2) := by
  rw [edit, h]
  dsimp only
  cases editAll (edit escaper depth) m.children c' with
  | none => rfl
  | some r =>
    obtain ⟨children, c₁, e⟩ := r
    cases e <;> rfl

theorem edit_call (h : 1 ≤ depth) (helper : String) (c : Context) :
    edit escaper depth (call helper) c = some (call helper, c, none) := by
  obtain ⟨depth, rfl⟩ := Nat.exists_eq_add_of_le' h
  rfl

theorem edit_nestedCall (h : 2 ≤ depth) (outer inner : String) (c : Context) :
    edit escaper depth ((call outer).push (call inner)) c =
      some ((call outer).push (call inner), c, none) := by
  obtain ⟨depth, rfl⟩ := Nat.exists_eq_add_of_le' h
  rfl

section

variable {go : Node → Context → Option (Node × Context × Option Error)} {n m : Node}

theorem editAll_cons (h : go n c = some (m, c', none)) (ns : List Node) :
    editAll go (n :: ns) c = (editAll go ns c').map fun p => (m :: p.1, p.2) := by
  rw [editAll, h]
  dsimp only
  cases editAll go ns c' <;> rfl

/-- A last node that the walk leaves as it is may be left out of it. -/
theorem editAll_concat (h : ∀ c, go m c = some (m, c, none)) : ∀ (ns : List Node) (c : Context),
    editAll go (ns ++ [m]) c = (editAll go ns c).map fun p => (p.1 ++ [m], p.2)
  | [], c => editAll_cons (h c) []
  | n :: ns, c => by
    rw [List.cons_append]
    cases hn : go n c with
    | none => rw [editAll, editAll, hn]; rfl
    | some r =>
      obtain ⟨e, c₁, failure⟩ := r
      cases failure with
      | some err => rw [editAll, editAll, hn]; rfl
      | none =>
        rw [editAll_cons hn, editAll_cons hn, editAll_concat h ns c₁, Option.map_map,
          Option.map_map]
        rfl

end

theorem editAll_withCall (h : 1 ≤ depth) (called : Bool) (ns : List Node) (c : Context) :
    editAll (edit escaper depth) (withCall called ns) c =
      (editAll (edit escaper depth) ns c).map fun p => (withCall called p.1, p.2) := by
  cases called with
  | false => exact Option.map_id'.symm
  | true => exact editAll_concat (edit_call h htmlHelper) ns c

theorem editAll_calls (h : 2 ≤ depth) (called : Bool) (ns : List Node) (c : Context) :
    editAll (edit escaper depth) (callLast htmlHelper (withCall called ns)) c =
      (editAll (edit escaper depth) (enteredAll (!called) ns) c).map fun p =>
        (p.1 ++ if called then [(call htmlHelper).push (call htmlHelper)] else [], p.2) := by
  rw [callLast_withCall]
  cases called with
  | false =>
    simp only [Bool.false_eq_true, if_false, List.append_nil]
    exact Option.map_id'.symm
  | true => exact editAll_concat (edit_nestedCall h htmlHelper htmlHelper) ns c

/-! ## The whole walk -/

mutual

/-- **The walk.** It needs no more levels than the tree has nodes and two for calls. -/
theorem edit_escaper : (n : Node) → ∀ {called : Bool} {c : Context} {depth : Nat},
    n.size + 2 ≤ depth →
      Agrees (escapeNode called c n) (edit escaper depth (entered called n) c)
  | ⟨kind, value, children⟩, called, c, depth, hdepth => by
    rw [Node.size] at hdepth
    obtain ⟨depth, rfl⟩ := Nat.exists_eq_add_of_le' (show 1 ≤ depth by omega)
    have hchildren : sizeAll children + 2 ≤ depth := by omega
    by_cases ht : kind = .text
    · subst ht
      have henter : escaper .enter (entered called ⟨.text, value, children⟩) c =
          (entered called ⟨.text, rewrite value, children⟩,
            (segments value).foldl segmentContext c, none) := by
        simp only [escaper, entered, escapeText_eq]
      rw [edit_of_enter henter, escapeNode, escapeText_eq, entered,
        editAll_withCall (by omega), Option.map_map]
      exact (editAll_escaper children hchildren).map
        fun es => (⟨.text, rewrite value, withCall called es⟩ : Node)
    by_cases ha : kind = .action
    · subst ha
      rw [escapeNode]
      cases c with
      | text =>
        have henter : escaper .enter (entered called ⟨.action, value, children⟩) .text =
            (⟨.action, value, callLast htmlHelper (withCall called children)⟩, .text, none) := rfl
        rw [edit_of_enter henter, editAll_calls (by omega), Option.map_map]
        exact (editAll_escaper children hchildren).map fun es => (⟨.action, value,
          es ++ if called then [(call htmlHelper).push (call htmlHelper)] else []⟩ : Node)
      | tag => exact .error _ _ _
      | attributeName => exact .error _ _ _
    · have henter : escaper .enter (entered called ⟨kind, value, children⟩) c =
          (entered called ⟨kind, value, children⟩, c, none) := by
        cases kind <;> first | rfl | contradiction
      rw [edit_of_enter henter, escapeNode, entered, editAll_withCall (by omega), Option.map_map]
      · exact (editAll_escaper children hchildren).map
          fun es => (⟨kind, value, withCall called es⟩ : Node)
      · exact ht
      · exact ha

theorem editAll_escaper : (ns : List Node) → ∀ {last : Bool} {c : Context} {depth : Nat},
    sizeAll ns + 2 ≤ depth →
      Agrees (escapeAll last c ns) (editAll (edit escaper depth) (enteredAll last ns) c)
  | [], last, c, depth, _ => by
    rw [enteredAll_nil]
    exact .ok [] c
  | n :: ns, last, c, depth, hdepth => by
    rw [sizeAll] at hdepth
    have hn := @edit_escaper n (last && ns.isEmpty) c depth (by omega)
    rw [enteredAll_cons, escapeAll]
    generalize hx : escapeNode (last && ns.isEmpty) c n = x at hn
    generalize hr : edit escaper depth (entered (last && ns.isEmpty) n) c = r at hn
    cases hn with
    | ok e c₁ =>
      rw [editAll_cons hr]
      exact (editAll_escaper ns (by omega)).map (e :: ·)
    | error err e c₁ =>
      rw [editAll, hr]
      exact .error err _ _

end

theorem entered_false (n : Node) : entered false n = n := by
  cases n
  rfl

/-- A document becomes what the walk makes of it, or is refused for the error that ends the walk. -/
def Walked (d : Document) : Prop :=
  ∀ depth, d.root.size + 2 ≤ depth → ∃ root c failure,
    edit escaper depth d.root .text = some (root, c, failure) ∧
      d.escape = match failure with
        | none => .ok ⟨d.name, root, true⟩
        | some e => .error (e.within
          (.make .escape "failed to escape template" [("template", d.name)]))

theorem walked_escape {d : Document} (hd : d.escaped = false) : Walked d := by
  intro depth h
  have hroot := @edit_escaper d.root false .text depth h
  rw [entered_false] at hroot
  unfold Document.escape
  rw [hd]
  generalize escapeNode false .text d.root = x at hroot
  generalize edit escaper depth d.root .text = r at hroot
  cases hroot with
  | ok root c => exact ⟨root, c, none, rfl, rfl⟩
  | error e root c => exact ⟨root, c, some e, rfl, rfl⟩

end Stencil.Autoescape
