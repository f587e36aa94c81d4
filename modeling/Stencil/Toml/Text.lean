import Stencil.Text.Reading

/-!
# Blanks, comments and strings in TOML

A string is on one line between single quotes of its kind, or between three of them on any number of
lines. Double quotes allow escapes. A line end directly behind three opening quotes is dropped, and
all other line ends in a string are line feeds. One or two quotes may stand in a string of lines,
also directly before the three that close it.
-/

namespace Stencil.Toml

open Text (Reading takeHex?)

/-! ## Blanks -/

def isBlank (c : Char) : Bool := c = ' ' || c = '\t'

def skipBlanks (cs : List Char) : List Char := cs.dropWhile isBlank

/-- May stand in comments and strings: no control character but the tab. -/
def isPlain (c : Char) : Bool := c = '\t' || (' ' ≤ c && c ≠ '\x7f')

/-- The text behind a line end. A carriage return is one only before a line feed. -/
def lineEnd? : List Char → Option (List Char)
  | '\n' :: cs => some cs
  | '\r' :: '\n' :: cs => some cs
  | _ => none

/-- Drops a comment, if there is one. -/
def skipComment : List Char → List Char
  | '#' :: cs => cs.dropWhile isPlain
  | cs => cs

/-- The text behind blanks, a comment and a line end, or the end of the text. -/
def endLine (cs : List Char) : Except (List Char) (List Char) :=
  match skipComment (skipBlanks cs) with
  | [] => .ok []
  | rest =>
    match lineEnd? rest with
    | some rest => .ok rest
    | none => .error rest

/-- Drops at most so many blanks, line ends, and comments with their line ends. -/
def skipLines : Nat → List Char → List Char
  | 0, cs => cs
  | n + 1, cs =>
    let rest := skipBlanks cs
    match lineEnd? (skipComment rest) with
    | some rest => skipLines n rest
    | none => rest

/-- Drops blanks, line ends and comments. -/
def skipSpace (cs : List Char) : List Char := skipLines (cs.length + 1) cs

/-- Drops blanks and line ends. -/
def skipBlankLines : Nat → List Char → List Char
  | 0, cs => cs
  | n + 1, cs =>
    match lineEnd? (skipBlanks cs) with
    | some rest => skipBlankLines n rest
    | none => skipBlanks cs

/-! ## Strings on one line -/

/-- The character of a code point, if it is one. -/
def scalar? (n : Nat) : Option Char :=
  if n.isValidChar then some (Char.ofNat n) else none

/-- The character that an escape spells, behind the backslash. -/
def escape? : List Char → Option (Char × List Char)
  | 'b' :: cs => some ('\x08', cs)
  | 't' :: cs => some ('\t', cs)
  | 'n' :: cs => some ('\n', cs)
  | 'f' :: cs => some ('\x0c', cs)
  | 'r' :: cs => some ('\r', cs)
  | '"' :: cs => some ('"', cs)
  | '\\' :: cs => some ('\\', cs)
  | 'u' :: cs => do
    let (n, cs) ← takeHex? 4 cs
    return (← scalar? n, cs)
  | 'U' :: cs => do
    let (n, cs) ← takeHex? 8 cs
    return (← scalar? n, cs)
  | _ => none

/-- Puts a character in front of what has been read. -/
def cons (c : Char) (r : Reading (List Char)) : Reading (List Char) :=
  r.map fun (s, rest) => (c :: s, rest)

/-- Reads at most so many characters of a string with escapes, and the quote behind them. -/
def basicEnd : Nat → List Char → Reading (List Char)
  | 0, cs => .error cs
  | _ + 1, [] => .error []
  | _ + 1, '"' :: cs => .ok ([], cs)
  | n + 1, '\\' :: cs =>
    match escape? cs with
    | some (c, cs) => cons c (basicEnd n cs)
    | none => .error cs
  | n + 1, c :: cs => if isPlain c then cons c (basicEnd n cs) else .error (c :: cs)

/-- Reads a string without escapes, and the quote behind it. -/
def literalEnd : List Char → Reading (List Char)
  | [] => .error []
  | '\'' :: cs => .ok ([], cs)
  | c :: cs => if isPlain c then cons c (literalEnd cs) else .error (c :: cs)

/-! ## Strings on any number of lines -/

/-- The text behind a backslash at the end of a line: blanks and line ends are dropped. -/
def continuedLine? (cs : List Char) : Option (List Char) :=
  (lineEnd? (skipBlanks cs)).map fun rest => skipBlankLines (rest.length + 1) rest

/-- Reads at most so many characters of a string of lines, and the quotes behind them. -/
def linesEnd (quote : Char) : Nat → List Char → Reading (List Char)
  | 0, cs => .error cs
  | _ + 1, [] => .error []
  | n + 1, c :: cs =>
    if c = quote then
      match (cs.takeWhile (· = quote)).length with
      | 0 => cons c (linesEnd quote n cs)
      | 1 => cons c (cons c (linesEnd quote n (cs.drop 1)))
      | 2 => .ok ([], cs.drop 2)
      | 3 => .ok ([c], cs.drop 3)
      | _ => .ok ([c, c], cs.drop 4)
    else if c = '\\' ∧ quote = '"' then
      match continuedLine? cs with
      | some cs => linesEnd quote n cs
      | none =>
        match escape? cs with
        | some (c, cs) => cons c (linesEnd quote n cs)
        | none => .error cs
    else
      match lineEnd? (c :: cs) with
      | some cs => cons '\n' (linesEnd quote n cs)
      | none => if isPlain c then cons c (linesEnd quote n cs) else .error (c :: cs)

/-- Reads a string of lines behind its opening quotes. -/
def linesString (quote : Char) (cs : List Char) : Reading (List Char) :=
  let cs := (lineEnd? cs).getD cs
  linesEnd quote (cs.length + 1) cs

/-- Reads a string on one line. -/
def lineString : List Char → Reading (List Char)
  | '"' :: cs => basicEnd (cs.length + 1) cs
  | '\'' :: cs => literalEnd cs
  | cs => .error cs

/-- Reads a string of any kind. -/
def string (cs : List Char) : Reading String :=
  let body :=
    match cs with
    | '"' :: '"' :: '"' :: cs => linesString '"' cs
    | '\'' :: '\'' :: '\'' :: cs => linesString '\'' cs
    | cs => lineString cs
  body.map fun (s, rest) => (String.ofList s, rest)

end Stencil.Toml
