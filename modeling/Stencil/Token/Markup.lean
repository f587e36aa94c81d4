import Stencil.Token.Lexer

/-!
# Tokens of markup

As much of HTML as is needed to know whether a place in a text is inside a tag: start tags, end
tags, comments and the text between them. A `<` that is not followed by a letter, a slash or `!--`
is text. Tags run to the next `>`, comments to the next `-->`, and both to the end of the source if
there is none.
-/

namespace Stencil.Markup

inductive Kind where
  | text
  | startTag
  | endTag
  | comment
  | eof
deriving Repr, DecidableEq

instance : TokenKind Kind where
  name
    | .text => "Text"
    | .startTag => "StartTag"
    | .endTag => "EndTag"
    | .comment => "Comment"
    | .eof => "Eof"

/-! ## Delimiters -/

/-- What a token of the kind starts with. -/
def Kind.opening : Kind → List Char
  | .text => []
  | .startTag => ['<']
  | .endTag => ['<', '/']
  | .comment => ['<', '!', '-', '-']
  | .eof => []

/-- What a token of the kind ends with, unless the source ends first. -/
def Kind.closing : Kind → List Char
  | .text => []
  | .startTag => ['>']
  | .endTag => ['>']
  | .comment => ['-', '-', '>']
  | .eof => []

/-- A token in three parts. The closing part is empty if the source ended first. -/
structure Delimited where
  opening : List Char
  content : List Char
  closing : List Char
deriving Repr, DecidableEq

/-- Takes the delimiters off the text of a token. -/
def delimited (kind : Kind) (value : List Char) : Delimited :=
  let inner := value.drop kind.opening.length
  if kind.closing ≠ [] ∧ kind.closing <:+ inner then
    ⟨kind.opening, inner.take (inner.length - kind.closing.length), kind.closing⟩
  else ⟨kind.opening, inner, []⟩

/-! ## States -/

inductive State where
  | text
  | startTag
  | endTag
  | comment
  | eof
deriving Repr, DecidableEq

/-- The markup that begins at the front of the text (one trial of `next_markup`). -/
def markupAt : List Char → Option State
  | '<' :: '/' :: _ => some .endTag
  | '<' :: '!' :: '-' :: '-' :: _ => some .comment
  | '<' :: c :: _ => if c.isAlpha then some .startTag else none
  | _ => none

/-- The number of characters before the first markup, or before the end. -/
def plainLength : List Char → Nat
  | [] => 0
  | c :: cs => if (markupAt (c :: cs)).isSome then 0 else plainLength cs + 1

/-- The number of characters through the first `>`, or to the end (`tag_len`). -/
def tagLength : List Char → Nat
  | [] => 0
  | c :: cs => if c = '>' then 1 else tagLength cs + 1

/-- The number of characters through the first `-->`, or to the end. -/
def commentEnd : List Char → Nat
  | '-' :: '-' :: '>' :: _ => 3
  | [] => 0
  | _ :: cs => commentEnd cs + 1

/-! ## Handlers -/

abbrev Step := Machine.Transition State Cursor (Token Kind)

/-- Passes the next `n` characters and emits them. -/
def emit (c : Cursor) (kind : Kind) (n : Nat) (state : State) : Step :=
  ⟨[c.token kind n], state, .ok (c.skip n)⟩

/-- Changes the state only. -/
def goto (c : Cursor) (state : State) : Step := ⟨[], state, .ok c⟩

def text (c : Cursor) : Step :=
  match plainLength c.rest with
  | 0 =>
    match markupAt c.rest with
    | some state => goto c state
    | none => emit c .eof 0 .eof
  | n + 1 => emit c .text (n + 1) ((markupAt (c.rest.drop (n + 1))).getD .text)

/-- The handler of each state. -/
def handler (state : State) (data : Machine.Data Cursor) : Step :=
  let c := data.raw
  match state with
  | .text => text c
  | .startTag => emit c .startTag (tagLength c.rest) .text
  | .endTag => emit c .endTag (tagLength c.rest) .text
  | .comment => emit c .comment (4 + commentEnd (c.rest.drop 4)) .text
  | .eof => goto c .eof

/-- Silent steps lead from text to markup. -/
def rank : State → Nat
  | .text => 1
  | _ => 0

end Markup

/-- The tokens of markup (`html`). -/
def markupLexer (source : String) : Lexer Markup.State Markup.Kind :=
  .ofTable source.toList Markup.handler .text .eof Markup.rank

/-- The three parts of a token. -/
def Token.delimited (t : Token Markup.Kind) : Markup.Delimited :=
  Markup.delimited t.kind t.value.toList

end Stencil
