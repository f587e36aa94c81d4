import Stencil.Json.Number

/-!
# Reading JSON

Strict JSON: blanks between tokens, no comments, no comma behind the last item, and strings without
control characters. Arrays and objects are at most `depthLimit` deep. All entries of an object are
kept, also where two have one key.
-/

namespace Stencil.Json

open Text (Reading takeHex?)

/-- How many arrays and objects may be inside each other. -/
def depthLimit : Nat := 127

def isBlank (c : Char) : Bool := c = ' ' || c = '\t' || c = '\n' || c = '\r'

def skipBlanks (cs : List Char) : List Char := cs.dropWhile isBlank

/-! ## Strings -/

/-- The character that `\u` spells, behind the `u`. One above U+FFFF is spelled as two halves. -/
def unicode? (cs : List Char) : Option (Char × List Char) := do
  let (n, cs) ← takeHex? 4 cs
  if 0xD800 ≤ n ∧ n < 0xDC00 then
    match cs with
    | '\\' :: 'u' :: cs =>
      let (m, cs) ← takeHex? 4 cs
      if 0xDC00 ≤ m ∧ m < 0xE000 then
        return (Char.ofNat (0x10000 + (n - 0xD800) * 0x400 + (m - 0xDC00)), cs)
      else none
    | _ => none
  else if 0xDC00 ≤ n ∧ n < 0xE000 then none
  else return (Char.ofNat n, cs)

/-- The character that an escape spells, behind the backslash. -/
def escape? : List Char → Option (Char × List Char)
  | '"' :: cs => some ('"', cs)
  | '\\' :: cs => some ('\\', cs)
  | '/' :: cs => some ('/', cs)
  | 'b' :: cs => some ('\x08', cs)
  | 'f' :: cs => some ('\x0c', cs)
  | 'n' :: cs => some ('\n', cs)
  | 'r' :: cs => some ('\r', cs)
  | 't' :: cs => some ('\t', cs)
  | 'u' :: cs => unicode? cs
  | _ => none

/-- Reads at most so many characters of a string, and the quote behind them. -/
def stringEnd : Nat → List Char → Reading (List Char)
  | 0, cs => .error cs
  | _ + 1, [] => .error []
  | _ + 1, '"' :: cs => .ok ([], cs)
  | n + 1, '\\' :: cs =>
    match escape? cs with
    | some (c, cs) => (stringEnd n cs).map fun (s, rest) => (c :: s, rest)
    | none => .error cs
  | n + 1, c :: cs =>
    if c < ' ' then .error (c :: cs)
    else (stringEnd n cs).map fun (s, rest) => (c :: s, rest)

/-- Reads a string behind its first quote. -/
def string (cs : List Char) : Reading String :=
  (stringEnd (cs.length + 1) cs).map fun (s, rest) => (String.ofList s, rest)

/-! ## Arrays and objects -/

/-- Reads at least one and at most so many items with commas between, and the closing bracket. -/
def itemsEnd {α : Type} (item : List Char → Reading α) (close : Char) :
    Nat → List Char → Reading (List α)
  | 0, cs => .error cs
  | n + 1, cs =>
    match item cs with
    | .error rest => .error rest
    | .ok (a, cs) =>
      match skipBlanks cs with
      | ',' :: cs => (itemsEnd item close n cs).map fun (as, rest) => (a :: as, rest)
      | c :: cs => if c = close then .ok ([a], cs) else .error (c :: cs)
      | [] => .error []

/-- Reads items behind the opening bracket. -/
def items {α : Type} (item : List Char → Reading α) (close : Char) (cs : List Char) :
    Reading (List α) :=
  match skipBlanks cs with
  | c :: rest => if c = close then .ok ([], rest) else itemsEnd item close (cs.length + 1) cs
  | [] => .error []

/-- Reads an entry of an object. -/
def entry {α : Type} (value : List Char → Reading α) (cs : List Char) : Reading (String × α) :=
  match skipBlanks cs with
  | '"' :: cs =>
    match string cs with
    | .error rest => .error rest
    | .ok (key, cs) =>
      match skipBlanks cs with
      | ':' :: cs => (value cs).map fun (a, rest) => ((key, a), rest)
      | rest => .error rest
  | rest => .error rest

/-- Reads a value behind blanks. Its arrays and objects are at most `depth` deep. -/
def value (depth : Nat) (cs : List Char) : Reading Content :=
  match skipBlanks cs with
  | 'n' :: 'u' :: 'l' :: 'l' :: cs => .ok (.unit, cs)
  | 't' :: 'r' :: 'u' :: 'e' :: cs => .ok (.bool true, cs)
  | 'f' :: 'a' :: 'l' :: 's' :: 'e' :: cs => .ok (.bool false, cs)
  | '"' :: cs => (string cs).map fun (s, rest) => (.string s, rest)
  | '[' :: cs =>
    match depth with
    | 0 => .error cs
    | depth + 1 => (items (value depth) ']' cs).map fun (vs, rest) => (.sequence vs, rest)
  | '\x7b' :: cs =>
    match depth with
    | 0 => .error cs
    | depth + 1 =>
      (items (entry (value depth)) '\x7d' cs).map fun (es, rest) => (.map es, rest)
  | cs => number cs

/-! ## Whole texts -/

/-- What a reader reads, if nothing but blanks follows it. -/
def whole {α : Type} : Reading α → Except (List Char) α
  | .error rest => .error rest
  | .ok (a, cs) =>
    match skipBlanks cs with
    | [] => .ok a
    | rest => .error rest

/-- Reads a text. -/
def read (text : List Char) : Except (List Char) Content := whole (value depthLimit text)

/-- Reads a text as an object, with all its entries in order. -/
def readEntries (text : List Char) : Except (List Char) (List (String × Content)) :=
  whole <|
    match skipBlanks text with
    | '\x7b' :: cs => items (entry (value (depthLimit - 1))) '\x7d' cs
    | rest => .error rest

end Stencil.Json
