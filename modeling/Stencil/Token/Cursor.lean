import Stencil.Machine
import Stencil.Text.Quoted
import Stencil.Text.Reading

/-!
# Tokens and cursors

A `Cursor` divides a source into what has been passed and the rest. A `Token` is a piece of the
source with its kind and the byte at which it starts.

Results:
* `source_skip`: moving on does not change the source.
-/

namespace Stencil

/-- A kind of token, with the name it is shown by. -/
class TokenKind (κ : Type) where
  name : κ → String

structure Token (κ : Type) where
  kind : κ
  value : String
  /-- In bytes. -/
  offset : Nat
deriving Repr, DecidableEq

/-- Kind, quoted value and offset. -/
def Token.describe {κ : Type} [TokenKind κ] (t : Token κ) : String :=
  s!"{TokenKind.name t.kind}({Text.quoted t.value})@{t.offset}"

structure Cursor where
  passed : List Char
  rest : List Char
deriving Repr, DecidableEq

namespace Cursor

/-- The start of a source. -/
def ofSource (source : List Char) : Cursor := ⟨[], source⟩

def source (c : Cursor) : List Char := c.passed ++ c.rest

/-- The bytes passed. -/
def offset (c : Cursor) : Nat := Text.byteSize c.passed

def position (c : Cursor) : Text.Position := .after c.passed

/-- Passes `n` characters. -/
def skip (c : Cursor) (n : Nat) : Cursor := ⟨c.passed ++ c.rest.take n, c.rest.drop n⟩

@[simp] theorem source_ofSource (source : List Char) : (ofSource source).source = source := rfl

@[simp] theorem source_skip (c : Cursor) (n : Nat) : (c.skip n).source = c.source := by
  simp [skip, source]

/-- The next `n` characters as a token. -/
def token {κ : Type} (c : Cursor) (kind : κ) (n : Nat) : Token κ :=
  ⟨kind, String.ofList (c.rest.take n), c.offset⟩

/-- The next `n` bytes and the cursor behind them, unless the source ends before or the cut is
inside a character. -/
def advance? (c : Cursor) (n : Nat) : Option (String × Cursor) :=
  (Text.splitBytes? n c.rest).map fun (taken, rest) =>
    (String.ofList taken, ⟨c.passed ++ taken, rest⟩)

/-- A lexical error at the cursor (`fail`): where it is, and the characters that follow. -/
def error (c : Cursor) (message : String) : Error :=
  .make .lex message [("line", toString c.position.line), ("column", toString c.position.column),
    ("near", Text.quoted (String.ofList (c.rest.take 12)))]

end Cursor

end Stencil
