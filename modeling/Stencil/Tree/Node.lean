/-!
# Template trees

The root of a template holds texts and actions, an action the commands of its pipeline, and a
command its terms: fields and identifiers. Nothing but the reader of template text keeps to that:
any kind of node may be below any other, and a node of any kind may have a value.

`Node.source` writes a tree as template text.
-/

namespace Stencil

inductive NodeKind where
  | root
  /-- Literal text. -/
  | text
  /-- Commands, the value of the last of which is written. -/
  | action
  /-- One segment of the pipeline of an action. -/
  | command
  /-- A member of the data, by its name with a dot before it. -/
  | field
  /-- A helper, or a member of the data if there is no such helper. -/
  | identifier
deriving Repr, DecidableEq

structure Node where
  kind : NodeKind
  /-- The text of a text, and the name of a field or identifier. -/
  value : String
  children : List Node
deriving Repr

namespace Node

def text (value : String) : Node := ⟨.text, value, []⟩

def field (name : String) : Node := ⟨.field, name, []⟩

def identifier (name : String) : Node := ⟨.identifier, name, []⟩

def command (terms : List Node) : Node := ⟨.command, "", terms⟩

def action (commands : List Node) : Node := ⟨.action, "", commands⟩

def root (children : List Node) : Node := ⟨.root, "", children⟩

/-- The node with one more child at the end. -/
def push (n : Node) (child : Node) : Node := { n with children := n.children ++ [child] }

/-! ## Equality -/

mutual

def decEq : (a b : Node) → Decidable (a = b)
  | ⟨k, v, as⟩, ⟨l, w, bs⟩ =>
    match decEqAll as bs with
    | isTrue hs =>
      if h : k = l ∧ v = w then isTrue (by rw [h.1, h.2, hs])
      else isFalse fun e => by cases e; exact h ⟨rfl, rfl⟩
    | isFalse hs => isFalse fun e => by cases e; exact hs rfl

def decEqAll : (as bs : List Node) → Decidable (as = bs)
  | [], [] => isTrue rfl
  | [], _ :: _ => isFalse fun e => by cases e
  | _ :: _, [] => isFalse fun e => by cases e
  | a :: as, b :: bs =>
    match decEq a b, decEqAll as bs with
    | isTrue h, isTrue hs => isTrue (by rw [h, hs])
    | isFalse h, _ => isFalse fun e => by cases e; exact h rfl
    | _, isFalse hs => isFalse fun e => by cases e; exact hs rfl

end

instance : DecidableEq Node := decEq

/-! ## Size -/

mutual

/-- The number of nodes of the tree (`len`). -/
def size : Node → Nat
  | ⟨_, _, children⟩ => 1 + sizeAll children

def sizeAll : List Node → Nat
  | [] => 0
  | n :: ns => n.size + sizeAll ns

end

@[simp] theorem sizeAll_append (ms ns : List Node) :
    sizeAll (ms ++ ns) = sizeAll ms + sizeAll ns := by
  induction ms with
  | nil => simp [sizeAll]
  | cons m ms ih => simp [sizeAll, ih, Nat.add_assoc]

/-! ## Source text -/

mutual

def sourceChars : Node → List Char
  | ⟨.root, _, children⟩ => (sourcesOf children).flatten
  | ⟨.text, value, _⟩ => value.toList
  | ⟨.action, _, children⟩ =>
    ['\x7b', '\x7b'] ++ List.intercalate [' ', '|', ' '] (sourcesOf children) ++ ['\x7d', '\x7d']
  | ⟨.command, _, children⟩ => List.intercalate [' '] (sourcesOf children)
  | ⟨.field, value, _⟩ => value.toList
  | ⟨.identifier, value, _⟩ => value.toList

def sourcesOf : List Node → List (List Char)
  | [] => []
  | n :: ns => n.sourceChars :: sourcesOf ns

end

/-- The tree as template text: texts as they are, actions between double braces with a pipe between
two commands and a blank between two terms. -/
def source (n : Node) : String := String.ofList n.sourceChars

end Node

/-- A template as a tree. -/
structure Document where
  name : String
  root : Node
  /-- Everything that the template writes is escaped. -/
  escaped : Bool
deriving DecidableEq

namespace Document

/-- A tree under a name, not yet escaped. -/
def new (name : String) (root : Node) : Document := ⟨name, root, false⟩

end Document

end Stencil
