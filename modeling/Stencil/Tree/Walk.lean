import Stencil.Error
import Stencil.Tree.Node

/-!
# Walks over a tree

A walk enters each node before its children and leaves it after them. `walk` lets a visitor with any
effects look at the nodes, and `edit` lets an editor replace each node as it is entered and left.

An editor may give every node it enters new children, without end. So `edit` is given the number of
levels it may go down, and has no result if that is not enough.

Results:
* `walk_eq_tour`: a walk visits the nodes in the order of `tour`.
* `length_tour`: each node is visited twice.
-/

namespace Stencil

/-- A walk meets each node twice. -/
inductive Moment where
  | enter
  | leave
deriving Repr, DecidableEq

namespace Node

/-! ## Looking at the nodes -/

section

variable {m : Type → Type} [Monad m] (visit : Moment → Node → m Unit)

mutual

/-- Visits all nodes of the tree. -/
def walk : Node → m Unit
  | ⟨kind, value, children⟩ => do
    visit .enter ⟨kind, value, children⟩
    walkAll children
    visit .leave ⟨kind, value, children⟩

def walkAll : List Node → m Unit
  | [] => pure ()
  | n :: ns => do
    walk n
    walkAll ns

end

end

mutual

/-- The visits of a walk, in order. -/
def tour : Node → List (Moment × Node)
  | ⟨kind, value, children⟩ =>
    (.enter, ⟨kind, value, children⟩) :: tourAll children ++ [(.leave, ⟨kind, value, children⟩)]

def tourAll : List Node → List (Moment × Node)
  | [] => []
  | n :: ns => tour n ++ tourAll ns

end

mutual

theorem length_tour : (n : Node) → n.tour.length = 2 * n.size
  | ⟨kind, value, children⟩ => by
    simp [tour, size, length_tourAll children]
    omega

theorem length_tourAll : (ns : List Node) → (tourAll ns).length = 2 * sizeAll ns
  | [] => rfl
  | n :: ns => by
    simp [tourAll, sizeAll, length_tour n, length_tourAll ns]
    omega

end

section

variable {m : Type → Type} [Monad m] [LawfulMonad m] (visit : Moment → Node → m Unit)

mutual

theorem walk_eq_tour : (n : Node) → walk visit n = n.tour.forM fun (w, n) => visit w n
  | ⟨kind, value, children⟩ => by
    simp [walk, tour, walkAll_eq_tour children]

theorem walkAll_eq_tour : (ns : List Node) →
    walkAll visit ns = (tourAll ns).forM fun (w, n) => visit w n
  | [] => rfl
  | n :: ns => by
    simp [walkAll, tourAll, walk_eq_tour n, walkAll_eq_tour ns]

end

end

/-! ## Changing the nodes -/

/-- What an editor makes of a node, with a state of type `ω`: the new node, the new state, and an
error if the walk is to end here. -/
abbrev Editor (ω : Type) := Moment → Node → ω → Node × ω × Option Error

/-- The children after a walk through them, the state, and the error that ended the walk. `go` edits
one child. Those behind a failure are left alone. -/
def editAll {ω : Type} (go : Node → ω → Option (Node × ω × Option Error)) :
    List Node → ω → Option (List Node × ω × Option Error)
  | [], s => some ([], s, none)
  | n :: ns, s =>
    match go n s with
    | none => none
    | some (n, s, some e) => some (n :: ns, s, some e)
    | some (n, s, none) =>
      match editAll go ns s with
      | none => none
      | some (ns, s, e) => some (n :: ns, s, e)

/-- The tree after a walk of at most `depth` levels (`walk_mut`), the state, and the error that
ended the walk. The children walked are those that the node has when it has been entered. -/
def edit {ω : Type} (editor : Editor ω) : Nat → Node → ω → Option (Node × ω × Option Error)
  | 0, _, _ => none
  | depth + 1, n, s =>
    match editor .enter n s with
    | (n, s, some e) => some (n, s, some e)
    | (n, s, none) =>
      match editAll (edit editor depth) n.children s with
      | none => none
      | some (children, s, some e) => some ({ n with children }, s, some e)
      | some (children, s, none) => some (editor .leave { n with children } s)

end Node

end Stencil
