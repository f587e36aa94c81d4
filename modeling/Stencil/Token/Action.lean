import Stencil.Token.Lexer

/-!
# Tokens of template text

Template text is literal text with actions between double braces. Inside an action there are fields
(`.Name`), bare names and pipes; ASCII blanks between them are passed over.
-/

namespace Stencil.Action

inductive Kind where
  /-- Literal text outside of any action. -/
  | text
  /-- The two braces that open an action. -/
  | leftDelim
  /-- The two braces that close an action. -/
  | rightDelim
  /-- A name with a leading dot. -/
  | field
  /-- A bare name. -/
  | identifier
  | pipe
  | eof
deriving Repr, DecidableEq

instance : TokenKind Kind where
  name
    | .text => "Text"
    | .leftDelim => "LeftDelim"
    | .rightDelim => "RightDelim"
    | .field => "Field"
    | .identifier => "Identifier"
    | .pipe => "Pipe"
    | .eof => "Eof"

inductive State where
  | text
  | leftDelim
  | inside
  | field
  | identifier
  | rightDelim
  | eof
deriving Repr, DecidableEq

/-! ## Characters -/

/-- ASCII letters, digits and the underscore. -/
def isNameChar (c : Char) : Bool := c.isAlphanum || c = '_'

/-- A name starts with an ASCII letter or the underscore. -/
def isNameStart (c : Char) : Bool := c.isAlpha || c = '_'

/-- Blank, tab, line feed, form feed and carriage return. -/
def isBlank (c : Char) : Bool := c = ' ' || c = '\t' || c = '\n' || c = '\x0c' || c = '\r'

/-- The number of name characters at the front (`name_len`). -/
def nameLength (cs : List Char) : Nat := (cs.takeWhile isNameChar).length

def opensAction : List Char → Bool
  | '\x7b' :: '\x7b' :: _ => true
  | _ => false

def closesAction : List Char → Bool
  | '\x7d' :: '\x7d' :: _ => true
  | _ => false

/-- The number of characters before the first action, or before the end. -/
def literalLength : List Char → Nat
  | [] => 0
  | c :: cs => if opensAction (c :: cs) then 0 else literalLength cs + 1

/-! ## Handlers -/

abbrev Step := Machine.Transition State Cursor (Token Kind)

/-- Passes the next `n` characters and emits them. -/
def emit (c : Cursor) (kind : Kind) (n : Nat) (state : State) : Step :=
  ⟨[c.token kind n], state, .ok (c.skip n)⟩

/-- Changes the state only. -/
def goto (c : Cursor) (state : State) : Step := ⟨[], state, .ok c⟩

def fail (c : Cursor) (message : String) : Step := ⟨[], .text, .failed c (c.error message)⟩

def text (c : Cursor) : Step :=
  match literalLength c.rest with
  | 0 => if c.rest.isEmpty then emit c .eof 0 .eof else goto c .leftDelim
  | n + 1 =>
    let after := c.rest.drop (n + 1)
    emit c .text (n + 1) (if after.isEmpty then .text else .leftDelim)

/-- Behind an opening delimiter (`inside_action`). -/
def inside (c : Cursor) : Step :=
  let c := c.skip (c.rest.takeWhile isBlank).length
  if closesAction c.rest then goto c .rightDelim
  else match c.rest with
    | [] => fail c "unclosed action"
    | '|' :: _ => emit c .pipe 1 .inside
    | '.' :: name =>
      if 0 < nameLength name then goto c .field else fail c "unrecognized character in action"
    | first :: _ =>
      if isNameStart first then goto c .identifier else fail c "unrecognized character in action"

/-- The handler of each state. -/
def handler (state : State) (data : Machine.Data Cursor) : Step :=
  let c := data.raw
  match state with
  | .text => text c
  | .leftDelim => emit c .leftDelim 2 .inside
  | .inside => inside c
  | .field => emit c .field (1 + nameLength (c.rest.drop 1)) .inside
  | .identifier => emit c .identifier (nameLength c.rest) .inside
  | .rightDelim => emit c .rightDelim 2 .text
  | .eof => goto c .eof

/-- Silent steps lead from literal text or from the inside of an action to a state that emits. -/
def rank : State → Nat
  | .text => 1
  | .inside => 1
  | _ => 0

end Action

/-- The tokens of template text (`actions`). -/
def actionLexer (source : String) : Lexer Action.State Action.Kind :=
  .ofTable source.toList Action.handler .text .eof Action.rank

/-- The text holds an opening delimiter. -/
def hasAction : List Char → Bool
  | [] => false
  | c :: cs => Action.opensAction (c :: cs) || hasAction cs

/-- The text is a template: it has something to compute, or at least the start of it
(`is_template`). -/
def isTemplate (text : String) : Bool := hasAction text.toList

end Stencil
