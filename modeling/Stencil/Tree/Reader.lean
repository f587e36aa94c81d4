import Stencil.Token.Action
import Stencil.Tree.Node

/-!
# Reading template text

The reader goes through the tokens of a template one by one, as far as the first that fits nowhere.
A text token becomes a text; the tokens between two delimiters become an action, with a command for
each segment between pipes. An action with an empty segment is refused at its closing delimiter, so
an error further down in the text is not seen. A text is complete with its token, so that there is
no error of a text.
-/

namespace Stencil.Action

abbrev Item := Except Error (Token Kind)

/-- What has been read of an action that is not closed yet. -/
structure Opened where
  /-- The byte at which it opens. -/
  offset : Nat
  tokens : List (Token Kind)

/-- A token that does not fit, and what would. -/
def unexpected (t : Token Kind) (expected : String) : Error :=
  .make .parse s!"unexpected {TokenKind.name t.kind} token"
    [("expected", expected), ("found", Text.quoted t.value), ("offset", toString t.offset)]

/-- The tokens between pipes. -/
def segments : List (Token Kind) → List (List (Token Kind))
  | [] => [[]]
  | t :: ts =>
    if t.kind = .pipe then [] :: segments ts
    else match segments ts with
      | [] => [[t]]
      | first :: others => (t :: first) :: others

def term (t : Token Kind) : Except Error Node :=
  match t.kind with
  | .field => .ok (.field t.value)
  | .identifier => .ok (.identifier t.value)
  | _ => .error (unexpected t "a field or identifier")

/-- The command of one segment of the action that opens at `offset`. -/
def command (offset : Nat) (segment : List (Token Kind)) : Except Error Node :=
  if segment.isEmpty then
    .error (.make .parse "missing command in action" [("offset", toString offset)])
  else .command <$> segment.mapM term

/-- Closes an action. -/
def Opened.close (o : Opened) : Except Error Node :=
  .action <$> (segments o.tokens).mapM (command o.offset)

/-- What one token does, with or without an action open before it: the node that it completes, and
the action that is open behind it. -/
def feed (current : Option Opened) (t : Token Kind) : Except Error (Option Node × Option Opened) :=
  match current with
  | none =>
    match t.kind with
    | .text => .ok (some (.text t.value), none)
    | .leftDelim => .ok (none, some ⟨t.offset, []⟩)
    | .rightDelim => .error (unexpected t "`\x7b\x7b`")
    | _ => .error (unexpected t "text or `\x7b\x7b`")
  | some o =>
    match t.kind with
    | .rightDelim => o.close.map fun node => (some node, none)
    | .field | .identifier | .pipe => .ok (none, some { o with tokens := o.tokens ++ [t] })
    | .eof => .error (unexpected t "the end of the open action")
    | _ => .error (unexpected t "a field, identifier, `|`, or `\x7d\x7d`")

end Action

namespace Document

open Stencil.Action (Kind Item Opened)

/-- The error of a template whose text is not made of tokens. -/
def lexFailure (name : String) : Error :=
  .make .other "failed to lex template" [("template", name)]

/-- The error of a template whose tokens do not fit together at a position. -/
def parseFailure (name : String) (p : Text.Position) : Error :=
  .make .other "failed to parse template"
    [("template", name), ("line", toString p.line), ("column", toString p.column)]

/-- The nodes that the items make up, with an action open before them or not. -/
def readItems (name : String) (source : List Char) :
    Option Opened → List Item → Except Error (List Node)
  | _, [] =>
    .error ((Error.make .parse "template ended without an end-of-input token" []).within
      (.make .other "failed to parse template" [("template", name)]))
  | _, .error e :: _ => .error (e.within (lexFailure name))
  | current, .ok t :: items =>
    if t.kind = .eof ∧ current.isNone then .ok []
    else
      match Action.feed current t with
      | .error e => .error (e.within (parseFailure name (Text.positionAt source t.offset)))
      | .ok (node, current) => (node.toList ++ ·) <$> readItems name source current items

/-- Reads template text into a tree (`parse`). -/
def ofText (name text : String) : Except Error Document :=
  (readItems name text.toList none (actionLexer text).items).map fun nodes =>
    .new name (.root nodes)

end Document

end Stencil
