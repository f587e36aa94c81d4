import Stencil.Files.Basic

/-!
# Walking through directories

A walk lists what is below a directory, and the directory itself. `Walker` is any program that does
so, and `walkFiles` is one. It leaves out names with a dot at their front. It goes through a
directory in the order of its names, and through each directory in it where its name is, and follows
links. A link that leads nowhere is an error, and so is a link to a directory if it has the path of
a directory that the walk is in. Errors come behind all that can be read in their directory. A
directory that cannot be listed has nothing in it.
-/

namespace Stencil

/-- What a walk finds at a path, at the end of all links. -/
structure WalkEntry where
  path : Path
  isFile : Bool

/-- Walks through a directory. What cannot be looked at is an error in its place. -/
abbrev Walker (m : Type → Type) : Type := Path → m (List (Except Error WalkEntry))

/-- What a walk meets under a name. -/
inductive Met where
  | file (path : Path)
  | directory (path : Path)
  | other (path : Path)
  | failure (e : Error)

/-- The name is left out of a walk. -/
def isHidden (name : Name) : Bool := name.head? = Name.dot.head?

/-- The error of a path that cannot be looked at. -/
def walkFailure (path : Path) (e : OsError) : Error :=
  .ofMessages .other s!"IO error for operation on {path.shown}: {e.message}" [e.message]

/-- The error of a link that leads back to a directory above it. -/
def loopFailure (path ancestor : Path) : Error :=
  .ofMessages .other
    s!"File system loop found: {path.shown} points to an ancestor {ancestor.shown}" []

/-- What a walk meets in a directory, in its order. -/
def inWalkOrder (met : List (Name × Met)) : List (Name × Met) :=
  let isFailure : Name × Met → Bool
    | (_, .failure _) => true
    | _ => false
  let (failures, others) := met.partition isFailure
  others.mergeSort (fun a b => decide (a.1 ≤ b.1)) ++ failures

variable {m : Type → Type} [Monad m] [Files m]

/-- What is met at a path in directories with the paths `above`, innermost first. -/
def meet (above : List Path) (path : Path) : Found → m Met
  | .file => return .file (if (← Files.link? path).isSome then path.rejoin else path)
  | .directory => do
    match (← Files.link? path).bind fun target => above.find? (Path.agree target) with
    | some ancestor => return .failure (loopFailure path ancestor)
    | none => return .directory path
  | .other => return .other path
  | .failure e => return .failure (walkFailure path e)

/-- Lists what is met one by one; `go` walks through a directory. -/
def walkEntries (go : Walker m) : List (Name × Met) → m (List (Except Error WalkEntry))
  | [] => return []
  | (_, met) :: rest => do
    let first ← match met with
      | .file path => pure [.ok ⟨path, true⟩]
      | .directory path => pure (.ok ⟨path, false⟩ :: (← go path))
      | .other path => pure [.ok ⟨path, false⟩]
      | .failure e => pure [.error e]
    return first ++ (← walkEntries go rest)

/-- What is below a directory, at most so many levels deep. -/
def walkWithin : Nat → List Path → Walker m
  | 0, _, _ => return []
  | depth + 1, above, path => do
    match ← Files.list path with
    | .error _ => return []
    | .ok found =>
      let met ← (found.filter fun e => !isHidden e.1).mapM fun (name, found) =>
        return (name, ← meet (path :: above) (path.join (.relative [name])) found)
      walkEntries (walkWithin depth (path :: above)) (inWalkOrder met)

/-- How deep a walk goes: each level makes its path two bytes longer at least, so that what is below
the last one has no path. -/
def walkDepth : Nat := Path.limit / 2 + 1

def walkFiles : Walker m := fun root => do
  let path := if (← Files.link? root).isSome then root.rejoin else root
  let met ← meet [root] path .directory
  walkEntries (walkWithin walkDepth [root]) [([], met)]

end Stencil
