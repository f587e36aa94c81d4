import Stencil.Text.Bytes

/-!
# Paths

A path is a row of names with slashes between them. It begins at the root of all files, or else
where one is. A name may be any bytes; they need not be text, and are shown with replacement
characters where they are none. Two paths with the same components lead to the same place: empty
names and single dots stand for nothing, but for a dot at the front, which is kept.
-/

namespace Stencil

/-- The bytes between two slashes. -/
abbrev Name := List UInt8

namespace Name

def slash : UInt8 := 47

/-- Here. -/
def dot : Name := [46]

/-- One step up. -/
def up : Name := [46, 46]

def ofText (s : String) : Name := Text.utf8 s.toList

instance : Coe String Name := ⟨ofText⟩

/-- How a name is shown. -/
def shown (name : Name) : String := String.ofList (Text.decodeLossy name)

/-- The text of a name that is one. -/
def text? (name : Name) : Option String :=
  if ofText (shown name) = name then some (shown name) else none

/-- Stands for nothing behind other names. -/
def isTrivial (name : Name) : Bool := name = [] || name = dot

end Name

structure Path where
  absolute : Bool
  /-- What is between the slashes, behind the first one if the path is absolute. -/
  segments : List Name
deriving DecidableEq

namespace Path

/-- How many bytes a path has at most. -/
def limit : Nat := 4095

/-- How many bytes a name has at most. -/
def nameLimit : Nat := 255

/-- The names between slashes. -/
def segmentsOf : List UInt8 → List Name
  | [] => [[]]
  | b :: bs =>
    if b = Name.slash then [] :: segmentsOf bs
    else match segmentsOf bs with
      | [] => [[b]]
      | first :: others => (b :: first) :: others

def ofBytes (bytes : List UInt8) : Path :=
  if bytes.head? = some Name.slash then ⟨true, segmentsOf bytes.tail⟩
  else ⟨false, segmentsOf bytes⟩

def ofText (s : String) : Path := ofBytes (Name.ofText s)

instance : Coe String Path := ⟨ofText⟩

/-- The path of names from where one is. -/
def relative (names : List Name) : Path := ⟨false, names⟩

/-- How a path is shown. -/
def shown (path : Path) : String :=
  (if path.absolute then "/" else "") ++ "/".intercalate (path.segments.map Name.shown)

/-- The number of bytes, with the slashes. -/
def size (path : Path) : Nat :=
  path.absolute.toNat + ((path.segments.flatMap (Name.slash :: ·)).length - 1)

def hasNul (path : Path) : Bool := path.segments.any fun name => name.contains 0

/-- The names that come before those of a path below this one. -/
def stem (path : Path) : List Name :=
  if path.segments.getLast? = some [] then path.segments.dropLast else path.segments

/-- A path below another, unless it is absolute. -/
def join (base path : Path) : Path :=
  if path.absolute then path else ⟨base.absolute, base.stem ++ path.segments⟩

/-! ## Components -/

/-- What stands at the front: the root, or a dot that is kept. -/
def front (path : Path) : List Name :=
  if path.absolute then [[Name.slash]] else (path.segments.take 1).filter (· = Name.dot)

/-- All that stands for something. -/
def components (path : Path) : List Name :=
  path.front ++ path.segments.filter fun name => !name.isTrivial

def isEmpty (path : Path) : Bool := path.components.isEmpty

/-- Two paths that differ at most in what stands for nothing. -/
def agree (path other : Path) : Bool := path.components = other.components

/-- The components of a path behind those of another. -/
def behind? (root path : Path) : Option (List Name) :=
  if root.components.isPrefixOf path.components
  then some (path.components.drop root.components.length) else none

/-! ## Names at the end -/

/-- The names, without those at the end that stand for nothing. -/
def trim (absolute : Bool) (names : List Name) : List Name :=
  match (names.reverse.dropWhile Name.isTrivial).reverse with
  | [] => if absolute then [] else (names.take 1).filter (· = Name.dot)
  | kept => kept

/-- The path of the directory that holds a path. Nothing holds the root or the empty path. -/
def parent? (path : Path) : Option Path :=
  let kept := trim path.absolute path.segments
  if kept = [] then none else some ⟨path.absolute, trim path.absolute kept.dropLast⟩

/-- The last name, unless it leads up or there is none. -/
def fileName? (path : Path) : Option Name :=
  path.components.getLast?.filter fun name =>
    name ≠ [Name.slash] ∧ name ≠ Name.dot ∧ name ≠ Name.up

/-- The file name below the path of its directory. -/
def rejoin (path : Path) : Path :=
  let name := (fileName? path).map fun name => relative [name]
  join ((parent? path).getD (relative [])) (name.getD path)

/-- What follows the last dot of a name, unless the name has no dot but at its front. -/
def extensionOf? (name : Name) : Option Name :=
  let behind := (name.reverse.takeWhile (· ≠ 46)).reverse
  let stem := name.take (name.length - behind.length - 1)
  if stem = [] ∨ behind.length = name.length then none else some behind

def extension? (path : Path) : Option Name := path.fileName?.bind extensionOf?

end Path

end Stencil
