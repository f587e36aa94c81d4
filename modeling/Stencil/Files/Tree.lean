import Stencil.Files.Basic

/-!
# A tree of files

A `FileTree` holds files, directories and links by their places. A place is the list of names on the
way to it from the root of all files, without links. Relative paths begin at the place where one is
working, which is always there, as are the directories above it.

What a file holds belongs to its node: files of one node are one file under several names. A file
that is open is a node too, and stays one if its name is taken away.

A path leads over at most `linkLimit` links, and neither it nor a name on its way is longer than
`Path.limit` and `Path.nameLimit` allow. Nobody is denied anything and there is always space: what
fails here fails because of what is at the places on the way.
-/

namespace Stencil

/-- The names on the way to a file or directory. -/
abbrev Place := List Name

inductive FileEntry where
  | file (node : Nat)
  | directory
  /-- A link, with the path it leads to. -/
  | link (target : Path)

def FileEntry.node? : FileEntry → Option Nat
  | file node => some node
  | _ => none

structure FileTree where
  working : Place
  entries : List (Place × FileEntry)
  contents : List (Nat × ByteArray)

namespace FileTree

def entry? (t : FileTree) (place : Place) : Option FileEntry :=
  if place.isPrefixOf t.working then some .directory else t.entries.lookup place

def remove (t : FileTree) (place : Place) : FileTree :=
  { t with entries := t.entries.filter fun e => e.1 ≠ place }

def set (t : FileTree) (place : Place) (entry : FileEntry) : FileTree :=
  { t with entries := (place, entry) :: (t.remove place).entries }

/-- All that there is, with the directories that always are. -/
def all (t : FileTree) : List (Place × FileEntry) :=
  (List.range (t.working.length + 1)).map (fun n => (t.working.take n, .directory)) ++ t.entries

/-- What is in a directory, by name. -/
def children (t : FileTree) (place : Place) : List (Name × FileEntry) :=
  t.all.filterMap fun (p, entry) =>
    match p.getLast? with
    | some name => if p.dropLast = place then some (name, entry) else none
    | none => none

/-! ## Nodes -/

/-- What the files of a node hold. -/
def content (t : FileTree) (node : Nat) : ByteArray := (t.contents.lookup node).getD .empty

def store (t : FileTree) (node : Nat) (bytes : ByteArray) : FileTree :=
  { t with contents := (node, bytes) :: t.contents.filter fun e => e.1 ≠ node }

/-- The nodes that files have or have had. -/
def nodes (t : FileTree) : List Nat :=
  t.entries.filterMap (·.2.node?) ++ t.contents.map (·.1)

/-- A node that no file has or has had. -/
def fresh (t : FileTree) : Nat := t.nodes.foldr max 0 + 1

/-! ## Following paths -/

/-- How many links one path may lead over. -/
def linkLimit : Nat := 40

/-- Where a path begins, seen from the directory `here`. -/
def start (path : Path) (here : Place) : Place := if path.absolute then [] else here

/-- The place that the segments of a path lead to, from the directory `here`, and what is there. If
nothing is there, its directory has to be. The last segment may be left as a link. -/
def follow (t : FileTree) (last : Bool) (links : Nat) (here : Place) (segments : List Name) :
    Except OsError (Place × Option FileEntry) :=
  match segments with
  | [] => .ok (here, t.entry? here)
  | s :: rest =>
    if s.isTrivial then follow t last links here rest
    else if s = Name.up then follow t last links here.dropLast rest
    else if Path.nameLimit < s.length then .error .nameTooLong
    else
      let place := here ++ [s]
      match t.entry? place with
      | none => if rest.isEmpty then .ok (place, none) else .error .notFound
      | some .directory => follow t last links place rest
      | some (.file node) =>
        if rest.isEmpty then .ok (place, some (.file node)) else .error .notDirectory
      | some (.link target) =>
        if rest.isEmpty && !last then .ok (place, some (.link target))
        else
          match links with
          | 0 => .error .tooManyLinks
          | links + 1 => follow t last links (start target here) (target.segments ++ rest)
termination_by (links, segments.length)

/-- The place that a path leads to and what is there; with `last`, also over a link at its end. -/
def locate (t : FileTree) (last : Bool) (path : Path) :
    Except OsError (Place × Option FileEntry) :=
  if path.hasNul then .error .nulInPath
  else if Path.limit < path.size then .error .nameTooLong
  else if path.isEmpty then .error .notFound
  else t.follow last linkLimit (start path t.working) path.segments

/-- What is at the end of a path and of all links. -/
def find (t : FileTree) (path : Path) : Except OsError FileEntry := do
  match ← t.locate true path with
  | (_, some entry) => return entry
  | (_, none) => .error .notFound

/-! ## Looking -/

def isDirectory (t : FileTree) (path : Path) : Bool :=
  match t.find path with
  | .ok .directory => true
  | _ => false

def isFile (t : FileTree) (path : Path) : Bool :=
  match t.find path with
  | .ok (.file _) => true
  | _ => false

def link? (t : FileTree) (path : Path) : Option Path :=
  match t.locate false path with
  | .ok (_, some (.link target)) => some target
  | _ => none

/-- A directory can be opened, but not read. -/
def read (t : FileTree) (path : Path) : Except ReadFailure ByteArray :=
  match t.find path with
  | .ok (.file node) => .ok (t.content node)
  | .ok _ => .error (.reading .isDirectory)
  | .error e => .error (.opening e)

/-- What is found at a path with this entry. -/
def found (t : FileTree) (path : Path) : FileEntry → Found
  | .file _ => .file
  | .directory => .directory
  | .link _ =>
    match t.find path with
    | .ok (.file _) => .file
    | .ok .directory => .directory
    | .ok (.link _) => .other
    | .error e => .failure e

def list (t : FileTree) (path : Path) : Except OsError (List (Name × Found)) := do
  match ← t.locate true path with
  | (place, some .directory) =>
    return (t.children place).map fun (name, entry) =>
      (name, t.found (path.join (.relative [name])) entry)
  | (_, some _) => .error .notDirectory
  | (_, none) => .error .notFound

/-! ## Changing -/

def makeDirectory (t : FileTree) (path : Path) : Except OsError FileTree := do
  match ← t.locate false path with
  | (_, some _) => .error .alreadyExists
  | (place, none) => return t.set place .directory

/-- The node of the file at a path, in a tree that has it. A file that is missing is made. -/
def nodeAt (t : FileTree) (path : Path) : Except OsError (Nat × FileTree) := do
  match ← t.locate true path with
  | (place, none) => return (t.fresh, (t.set place (.file t.fresh)).store t.fresh .empty)
  | (_, some (.file node)) => return (node, t)
  | (_, some _) => .error .isDirectory

/-- A file that is open. -/
structure Handle where
  node : Nat
  /-- Where the next bytes go, or nothing if it is always the end. -/
  position? : Option Nat

def create (t : FileTree) (path : Path) : Except OsError (Handle × FileTree) :=
  return match ← t.nodeAt path with
  | (node, t) => (⟨node, some 0⟩, t.store node .empty)

def openEnd (t : FileTree) (path : Path) : Except OsError (Handle × FileTree) :=
  return match ← t.nodeAt path with
  | (node, t) => (⟨node, none⟩, t)

/-- Bytes with others written over them from a position on. A position behind the end is reached by
zeros. -/
def overwrite (old : ByteArray) (position : Nat) (bytes : ByteArray) : ByteArray :=
  let zeros : ByteArray := ⟨Array.replicate (position - old.size) 0⟩
  old.extract 0 position ++ zeros ++ bytes ++ old.extract (position + bytes.size) old.size

/-- Writes to an open file. Where there is nothing to write, nothing changes. -/
def write (t : FileTree) (file : Handle) (bytes : ByteArray) : Handle × FileTree :=
  let old := t.content file.node
  if bytes.isEmpty then (file, t)
  else match file.position? with
    | none => (file, t.store file.node (old ++ bytes))
    | some position =>
      ({ file with position? := some (position + bytes.size) },
        t.store file.node (overwrite old position bytes))

/-- Does something to the tree of a state. -/
def perform {α : Type} (change : FileTree → Except OsError (α × FileTree)) :
    StateM FileTree (Except OsError α) := fun t =>
  match change t with
  | .ok (a, t) => (.ok a, t)
  | .error e => (.error e, t)

instance : Files (StateM FileTree) where
  Handle := Handle
  isDirectory path := return (← get).isDirectory path
  isFile path := return (← get).isFile path
  link? path := return (← get).link? path
  read path := return (← get).read path
  list path := return (← get).list path
  makeDirectory path := perform fun t => (t.makeDirectory path).map ((), ·)
  create path := perform (·.create path)
  openEnd path := perform (·.openEnd path)
  write file bytes := perform fun t => .ok (t.write file bytes)

end FileTree

end Stencil
