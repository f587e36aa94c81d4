import Stencil.Value.Content

/-!
# Tables under construction

While a TOML text is read, a table knows how it came about: by a header or braces of its own, only
on the way to another table (`implicit`), or on the way to a key with dots (`dotted`). That decides
what may still be added to it. `none` is the answer when an addition is not allowed.
-/

namespace Stencil.Toml

mutual

inductive Item where
  | content (c : Content)
  | table (t : Table)
  /-- An array of tables. The last one can still be added to. -/
  | tables (before : List Table) (last : Table)

inductive Table where
  | mk (implicit dotted : Bool) (entries : List (String × Item))

end

namespace Table

def implicit : Table → Bool
  | mk implicit _ _ => implicit

def dotted : Table → Bool
  | mk _ dotted _ => dotted

def entries : Table → List (String × Item)
  | mk _ _ entries => entries

/-- A table with a header or braces of its own. -/
def explicit (entries : List (String × Item)) : Table := mk false false entries

def get? (t : Table) (key : String) : Option Item := t.entries.lookup key

/-- Puts an entry into the table, in the place of one with the same key. -/
def put (t : Table) (key : String) (item : Item) : Table :=
  mk t.implicit t.dotted (Dict.insert t.entries key item)

/-- Changes the table at the end of a path; tables that are missing on the way are made. With
`dotted`, the path belongs to a key with dots, which must not lead through tables that are not
implicit. -/
def descend (dotted : Bool) (change : Table → Option Table) : List String → Table → Option Table
  | [], t => change t
  | key :: path, t =>
    match t.get? key with
    | none => (descend dotted change path (mk true dotted [])).map fun u => t.put key (.table u)
    | some (.content _) => none
    | some (.tables before last) =>
      (descend dotted change path last).map fun last => t.put key (.tables before last)
    | some (.table u) =>
      if dotted && !u.implicit then none
      else (descend dotted change path u).map fun u => t.put key (.table u)

/-- Adds content under a key, the last of `path`. It must be new, and a key with dots must end in a
table that has come about by such keys. -/
def addValue (path : List String) (key : String) (c : Content) (t : Table) : Option Table :=
  let add (u : Table) : Option Table :=
    if u.dotted = path.isEmpty ∨ (u.get? key).isSome then none else some (u.put key (.content c))
  descend true add path t

/-- Opens the table of a header. It must be new, or have been on the way to another table only. -/
def openTable (path : List String) (key : String) (t : Table) : Option Table :=
  let start (u : Table) : Option Table :=
    match u.get? key with
    | none => some (u.put key (.table (explicit [])))
    | some (.table s) =>
      if s.implicit && !s.dotted then some (u.put key (.table (explicit s.entries))) else none
    | some _ => none
  descend false start path t

/-- Adds a table to an array of tables, which is made if it is missing. -/
def openElement (path : List String) (key : String) (t : Table) : Option Table :=
  let start (u : Table) : Option Table :=
    match u.get? key with
    | none => some (u.put key (.tables [] (explicit [])))
    | some (.tables before last) => some (u.put key (.tables (before ++ [last]) (explicit [])))
    | some _ => none
  descend false start path t

end Table

/-! ## Content -/

mutual

def Item.toContent : Item → Content
  | .content c => c
  | .table t => t.toContent
  | .tables before last => .sequence (Table.toContents before ++ [last.toContent])

def Table.toContent : Table → Content
  | .mk _ _ entries => .map (Table.toEntries entries)

def Table.toContents : List Table → List Content
  | [] => []
  | t :: ts => t.toContent :: Table.toContents ts

def Table.toEntries : List (String × Item) → List (String × Content)
  | [] => []
  | (key, item) :: rest => (key, item.toContent) :: Table.toEntries rest

end

end Stencil.Toml
