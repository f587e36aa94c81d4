import Stencil.Member.Basic
import Stencil.Token.Markup
import Stencil.Tree.Node

/-!
# Autoescaping

Autoescaping changes a tree so that whatever it writes is text in HTML. It goes through the tree
once, from left to right, and keeps track of the place in the markup. Texts lose their comments and
have their special characters written as character references, outside of tags and inside. Each
action gets a call of the helper `html` behind the last term of its last command. An action inside
of a start tag is refused, as no helper makes its value safe there.

The call becomes a child of whatever node is the last child of the action, before that node is gone
through. Hence `called`: a node that is called has got the call as one more child.
-/

namespace Stencil

namespace Autoescape

/-- The place in the markup that has been reached. -/
inductive Context where
  /-- Between tags. -/
  | text
  /-- In a start tag that is not closed yet. -/
  | tag
  /-- In a start tag, where an action stands for the name of an attribute. -/
  | attributeName
deriving Repr, DecidableEq

namespace Context

def name : Context → String
  | text => "Text"
  | tag => "Tag"
  | attributeName => "AttrName"

/-- The place as an action sees it. -/
def atAction : Context → Context
  | tag => attributeName
  | c => c

/-- The helper that makes values safe at the place, if there is one. -/
def helper? : Context → Option String
  | text => some htmlHelper
  | _ => none

end Context

/-! ## Texts -/

/-- The place behind a token. Comments, and the end of a text, leave it alone. -/
def contextAfter (c : Context) (t : Token Markup.Kind) : Context :=
  match t.kind with
  | .comment | .eof => c
  | .startTag => if t.delimited.closing.isEmpty then .tag else .text
  | .endTag | .text => .text

/-- A token as it is written: the content escaped, the delimiters as they are, and no comments. -/
def escapedToken (t : Token Markup.Kind) : List Char :=
  match t.kind with
  | .comment | .eof => []
  | _ =>
    let d := t.delimited
    d.opening ++ Text.escapeChars d.content ++ d.closing

/-- The markup of a text, without the line ends at its front. -/
def markupOf (text : String) : Except Error (List (Token Markup.Kind)) :=
  (markupLexer (String.ofList (text.toList.dropWhile (· = '\n')))).tokens

/-- A text as it is written (`rewrite`), and the place behind it. -/
def escapeText (c : Context) (text : String) : Except Error (String × Context) :=
  (markupOf text).map fun tokens =>
    (String.ofList (tokens.flatMap escapedToken), tokens.foldl contextAfter c)

/-! ## Trees -/

def call (helper : String) : Node := .identifier helper

/-- The error of an action at a place without a helper. -/
def noHelper (c : Context) (action : Node) : Error :=
  .make .escape "action appears where no escaper applies"
    [("context", c.name), ("action", action.source)]

/-- The children of a node when it is entered: its own, and the call if it is called. -/
def withCall (called : Bool) (children : List Node) : List Node :=
  if called then children ++ [call htmlHelper] else children

mutual

/-- The escaped node, and the place behind it: one visit of the escaper (`enter`) and the walk below
it. -/
def escapeNode (called : Bool) (c : Context) : Node → Except Error (Node × Context)
  | ⟨.text, value, children⟩ => do
    let (value, c) ← escapeText c value
    let (children, c) ← escapeAll false c children
    return (⟨.text, value, withCall called children⟩, c)
  | ⟨.action, value, children⟩ =>
    let c := c.atAction
    match c.helper? with
    | none => .error (noHelper c ⟨.action, value, withCall called children⟩)
    | some helper => do
      let (children, c) ← escapeAll (!called) c children
      let calls := if called then [(call htmlHelper).push (call helper)] else []
      return (⟨.action, value, children ++ calls⟩, c)
  | ⟨kind, value, children⟩ => do
    let (children, c) ← escapeAll false c children
    return (⟨kind, value, withCall called children⟩, c)

/-- The escaped nodes, of which the last may be called, and the place behind them. -/
def escapeAll (lastCalled : Bool) (c : Context) : List Node → Except Error (List Node × Context)
  | [] => .ok ([], c)
  | n :: ns => do
    let (n, c) ← escapeNode (lastCalled && ns.isEmpty) c n
    let (ns, c) ← escapeAll lastCalled c ns
    return (n :: ns, c)

end

end Autoescape

namespace Document

/-- Escapes all that the template writes. A template that is escaped already stays as it is. -/
def escape (d : Document) : Except Error Document :=
  if d.escaped then .ok d
  else
    match Autoescape.escapeNode false .text d.root with
    | .ok (root, _) => .ok { d with root, escaped := true }
    | .error e =>
      .error (e.within (.make .escape "failed to escape template" [("template", d.name)]))

end Document

end Stencil
