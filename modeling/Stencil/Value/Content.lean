import Stencil.Value.Basic

/-!
# Content

Data as a format has it: what is read from a text before it is known which value it stands for, and
what a value has written into one. Content does not name kinds of values, so that a value is found
by trial: the kinds are tried in their order, and the first one that takes the content counts. The
kinds of numbers are tried in the same way, and more than one of them may take an integer.
-/

namespace Stencil

inductive Content where
  | unit
  | bool (b : Bool)
  | unsigned (n : UInt64)
  | signed (n : Int64)
  | float (x : Binary64)
  | string (s : String)
  | sequence (items : List Content)
  | map (entries : List (String × Content))

/-! ## Numbers -/

namespace Number

def content : Number → Content
  | unsigned n => .unsigned n
  | signed n => .signed n
  | float x => .float x

/-- An unsigned integer takes every integer that is not negative. -/
def unsignedOf? : Content → Option Number
  | .unsigned n => some (unsigned n)
  | .signed n => if 0 ≤ n.toInt then some (unsigned (UInt64.ofNat n.toInt.toNat)) else none
  | _ => none

/-- A signed integer takes every integer in its range. -/
def signedOf? : Content → Option Number
  | .unsigned n => if n.toNat < signedLimit then some (signed (Int64.ofInt n.toNat)) else none
  | .signed n => some (signed n)
  | _ => none

/-- A float takes integers as well, and rounds them. -/
def floatOf? : Content → Option Number
  | .unsigned n => some (float (.ofNat n.toNat))
  | .signed n => some (float (.ofInt n.toInt))
  | .float x => some (float x)
  | _ => none

/-- The number that content stands for. -/
def ofContent? (c : Content) : Option Number :=
  unsignedOf? c <|> signedOf? c <|> floatOf? c

end Number

/-! ## Values -/

namespace Value

mutual

/-- What is written for a value: what it holds, and not of which kind it is. -/
def content : Value → Content
  | null => .unit
  | bool b => .bool b
  | number n => n.content
  | string s => .string s
  | array items => .sequence (contentAll items)
  | dict entries => .map (contentEntries entries)

def contentAll : List Value → List Content
  | [] => []
  | v :: vs => v.content :: contentAll vs

def contentEntries : List (String × Value) → List (String × Content)
  | [] => []
  | (key, v) :: rest => (key, v.content) :: contentEntries rest

end

/-! ### The kinds that hold no other values -/

def nullOf? : Content → Option Value
  | .unit => some null
  | _ => none

def boolOf? : Content → Option Value
  | .bool b => some (bool b)
  | _ => none

def numberOf? (c : Content) : Option Value := (Number.ofContent? c).map number

def stringOf? : Content → Option Value
  | .string s => some (string s)
  | _ => none

/-! ### All kinds -/

mutual

/-- The value that content stands for. -/
def ofContent? (c : Content) : Option Value :=
  nullOf? c <|> boolOf? c <|> numberOf? c <|> stringOf? c <|>
    (match c with
      | .sequence items => (ofContents? items).map array
      | _ => none) <|>
    (match c with
      | .map entries => (ofContentEntries? entries).map fun es => dict (Dict.ofList es)
      | _ => none)

def ofContents? : List Content → Option (List Value)
  | [] => some []
  | c :: cs => do
    let v ← ofContent? c
    return v :: (← ofContents? cs)

/-- All entries of a map, in their order. There may be several with one key. -/
def ofContentEntries? : List (String × Content) → Option (List (String × Value))
  | [] => some []
  | (key, c) :: rest => do
    let v ← ofContent? c
    return (key, v) :: (← ofContentEntries? rest)

end

end Value

end Stencil
