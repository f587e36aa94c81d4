import Stencil.Toml.Scalar
import Stencil.Toml.Table
import Stencil.Toml.Text

/-!
# Reading TOML

A text is read statement by statement: a key with its value, the header of a table, or the header of
one more element of an array of tables. Arrays may go over lines, inline tables may not, and neither
are more than `depthLimit` deep. A date becomes a map with the one key `dateKey`.
-/

namespace Stencil.Toml

open Text (Reading)

/-- How many arrays and inline tables may be inside each other, and how many parts a key has. -/
def depthLimit : Nat := 79

/-- The key under which a date is kept. -/
def dateKey : String := "$__toml_private_datetime"

/-! ## Keys -/

/-- May stand in a key without quotes. -/
def isBare (c : Char) : Bool := c.isAlphanum || c = '-' || c = '_'

/-- Reads one part of a key. -/
def keyPart (cs : List Char) : Reading String :=
  match cs with
  | '"' :: _ | '\'' :: _ => (lineString cs).map fun (s, rest) => (String.ofList s, rest)
  | cs =>
    match cs.takeWhile isBare with
    | [] => .error cs
    | bare => .ok (String.ofList bare, cs.dropWhile isBare)

/-- Reads a key of at most so many parts, with blanks around it: the parts before the last, and the
last. -/
def key : Nat → List Char → Reading (List String × String)
  | 0, cs => .error cs
  | n + 1, cs =>
    match keyPart (skipBlanks cs) with
    | .error rest => .error rest
    | .ok (part, cs) =>
      match skipBlanks cs with
      | '.' :: cs => (key n cs).map fun ((path, last), rest) => ((part :: path, last), rest)
      | rest => .ok (([], part), rest)

/-! ## Values -/

/-- Reads a number, or a date or time. -/
def scalar (cs : List Char) : Reading Content :=
  match dateTime? cs with
  | some (.ok (d, rest)) => .ok (.map [(dateKey, .string (String.ofList d))], rest)
  | some (.error rest) => .error rest
  | none => number cs

/-- Reads at least one and at most so many items of an array, and the bracket behind them. A comma
may stand behind the last one. -/
def arrayEnd (value : List Char → Reading Content) : Nat → List Char → Reading (List Content)
  | 0, cs => .error cs
  | n + 1, cs =>
    match value cs with
    | .error rest => .error rest
    | .ok (v, cs) =>
      match skipSpace cs with
      | ']' :: rest => .ok ([v], rest)
      | ',' :: cs =>
        match skipSpace cs with
        | ']' :: rest => .ok ([v], rest)
        | cs => (arrayEnd value n cs).map fun (vs, rest) => (v :: vs, rest)
      | rest => .error rest

/-- Reads an array behind its opening bracket. -/
def array (value : List Char → Reading Content) (cs : List Char) : Reading (List Content) :=
  match skipSpace cs with
  | ']' :: rest => .ok ([], rest)
  | cs => arrayEnd value (cs.length + 1) cs

/-- Reads a key and a value, and adds them to a table. -/
def keyValue (value : List Char → Reading Content) (t : Table) (cs : List Char) : Reading Table :=
  match key depthLimit cs with
  | .error rest => .error rest
  | .ok ((path, last), cs) =>
    match cs with
    | '=' :: cs =>
      match value (skipBlanks cs) with
      | .error rest => .error rest
      | .ok (v, rest) =>
        match t.addValue path last v with
        | some t => .ok (t, rest)
        | none => .error rest
    | rest => .error rest

/-- Reads at least one and at most so many entries of an inline table, and the brace behind them. -/
def inlineEnd (value : List Char → Reading Content) : Nat → Table → List Char → Reading Table
  | 0, _, cs => .error cs
  | n + 1, t, cs =>
    match keyValue value t cs with
    | .error rest => .error rest
    | .ok (t, cs) =>
      match skipBlanks cs with
      | '\x7d' :: rest => .ok (t, rest)
      | ',' :: cs => inlineEnd value n t cs
      | rest => .error rest

/-- Reads an inline table behind its opening brace. -/
def inlineTable (value : List Char → Reading Content) (cs : List Char) : Reading Table :=
  match skipBlanks cs with
  | '\x7d' :: rest => .ok (.explicit [], rest)
  | cs => inlineEnd value (cs.length + 1) (.explicit []) cs

/-- Reads a value. Its arrays and inline tables are at most `depth` deep. -/
def value (depth : Nat) (cs : List Char) : Reading Content :=
  match cs with
  | '"' :: _ | '\'' :: _ => (string cs).map fun (s, rest) => (.string s, rest)
  | 't' :: 'r' :: 'u' :: 'e' :: rest => .ok (.bool true, rest)
  | 'f' :: 'a' :: 'l' :: 's' :: 'e' :: rest => .ok (.bool false, rest)
  | '[' :: cs =>
    match depth with
    | 0 => .error cs
    | depth + 1 => (array (value depth) cs).map fun (vs, rest) => (.sequence vs, rest)
  | '\x7b' :: cs =>
    match depth with
    | 0 => .error cs
    | depth + 1 => (inlineTable (value depth) cs).map fun (t, rest) => (t.toContent, rest)
  | cs => scalar cs

/-! ## Statements -/

/-- What has been read: the table of everything, and the header that statements belong to. -/
structure Draft where
  root : Table
  header : List String

/-- Reads a key and a value below the header. A key has to be allowed in the table of the header,
which is reached without regard to how it came about. -/
def assignment (d : Draft) (cs : List Char) : Reading Draft :=
  match key depthLimit cs with
  | .error rest => .error rest
  | .ok ((path, last), cs) =>
    match cs with
    | '=' :: cs =>
      match value depthLimit (skipBlanks cs) with
      | .error rest => .error rest
      | .ok (v, rest) =>
        match d.root.descend false (·.addValue path last v) d.header with
        | some root => .ok ({ d with root }, rest)
        | none => .error rest
    | rest => .error rest

/-- Reads the key of a header and its closing brackets, and opens the table. -/
def header (d : Draft) (close : List Char)
    (start : List String → String → Table → Option Table) (cs : List Char) : Reading Draft :=
  match key depthLimit cs with
  | .error rest => .error rest
  | .ok ((path, last), cs) =>
    if close.isPrefixOf cs then
      match start path last d.root with
      | some root => .ok (⟨root, path ++ [last]⟩, cs.drop close.length)
      | none => .error cs
    else .error cs

/-- Reads a statement. -/
def statement (d : Draft) (cs : List Char) : Reading Draft :=
  match cs with
  | '[' :: '[' :: cs => header d [']', ']'] (fun path last t => t.openElement path last) cs
  | '[' :: cs => header d [']'] (fun path last t => t.openTable path last) cs
  | cs => assignment d cs

/-- Reads at most so many lines. -/
def statements : Nat → Draft → List Char → Except (List Char) Draft
  | 0, _, cs => .error cs
  | n + 1, d, cs =>
    match skipBlanks cs with
    | [] => .ok d
    | c :: rest =>
      if c = '#' ∨ c = '\n' ∨ c = '\r' then
        match endLine (c :: rest) with
        | .error rest => .error rest
        | .ok cs => statements n d cs
      else
        match statement d (c :: rest) with
        | .error rest => .error rest
        | .ok (d, cs) =>
          match endLine cs with
          | .error rest => .error rest
          | .ok cs => statements n d cs

/-- Reads a text as entries. A mark of the byte order at its front is passed over. -/
def read (text : List Char) : Except (List Char) (List (String × Content)) :=
  let cs :=
    match text with
    | '\uFEFF' :: cs => cs
    | cs => cs
  (statements (cs.length + 1) ⟨.explicit [], []⟩ cs).map fun d => Table.toEntries d.root.entries

end Stencil.Toml
