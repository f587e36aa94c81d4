import Stencil.Error
import Stencil.Files.Path

/-!
# Files

`Files m` is what a program that runs in `m` can do with files: look at them, read them, open them
to write to them, and make directories. Links are followed, but `link?` looks at a link itself. A
file that has been created is written to from its beginning on, and one that has been opened at its
end is always written to there, wherever that is by then.

Here are the two operations that are made up of several: `createDirectories`, which makes a
directory and those that hold it, and `createFile`, which does so before it creates a file.
-/

namespace Stencil

/-- An error of the system, with its number, or one of a path that the system never sees. -/
structure OsError where
  code? : Option Nat
  text : String
deriving Repr, DecidableEq

namespace OsError

def notFound : OsError := ⟨some 2, "No such file or directory"⟩

def alreadyExists : OsError := ⟨some 17, "File exists"⟩

def notDirectory : OsError := ⟨some 20, "Not a directory"⟩

def isDirectory : OsError := ⟨some 21, "Is a directory"⟩

def nameTooLong : OsError := ⟨some 36, "File name too long"⟩

def tooManyLinks : OsError := ⟨some 40, "Too many levels of symbolic links"⟩

/-- The system takes a path to end at its first NUL. -/
def nulInPath : OsError := ⟨none, "file name contained an unexpected NUL byte"⟩

def message (e : OsError) : String :=
  match e.code? with
  | some code => s!"{e.text} (os error {code})"
  | none => e.text

def toError (e : OsError) : Error := .make .io e.message []

end OsError

/-- A file that cannot be opened, or one that can be opened and not read. -/
inductive ReadFailure where
  | opening (e : OsError)
  | reading (e : OsError)

/-- What is found under a name in a directory, at the end of all links. -/
inductive Found where
  | file
  | directory
  | other
  | failure (e : OsError)

class Files (m : Type → Type) where
  /-- A file that is open, with what tells where it is written to. -/
  Handle : Type
  isDirectory : Path → m Bool
  isFile : Path → m Bool
  /-- Where the link at a path leads, if there is one. -/
  link? : Path → m (Option Path)
  read : Path → m (Except ReadFailure ByteArray)
  /-- The names in a directory. -/
  list : Path → m (Except OsError (List (Name × Found)))
  makeDirectory : Path → m (Except OsError Unit)
  /-- Makes an empty file, or empties one that is there, and opens it. -/
  create : Path → m (Except OsError Handle)
  /-- Opens a file at its end, and makes it if it is missing. -/
  openEnd : Path → m (Except OsError Handle)
  write : Handle → ByteArray → m (Except OsError Handle)

variable {m : Type → Type} [Monad m] [Files m]

/-- A program with a state of its own uses the same files. -/
instance {ω : Type} : Files (StateT ω m) where
  Handle := Files.Handle m
  isDirectory path := StateT.lift (Files.isDirectory path)
  isFile path := StateT.lift (Files.isFile path)
  link? path := StateT.lift (Files.link? path)
  read path := StateT.lift (Files.read path)
  list path := StateT.lift (Files.list path)
  makeDirectory path := StateT.lift (Files.makeDirectory path)
  create path := StateT.lift (Files.create path)
  openEnd path := StateT.lift (Files.openEnd path)
  write file bytes := StateT.lift (Files.write file bytes)

/-- Makes a directory, unless it is there. -/
def makeMissing (path : Path) : m (Except OsError Unit) := do
  match ← Files.makeDirectory path with
  | .ok () => return .ok ()
  | .error e => return if ← Files.isDirectory path then .ok () else .error e

/-- Makes a directory and at most so many of those that hold it, outermost first. -/
def createWithin : Nat → Path → m (Except OsError Unit)
  | 0, _ => return .error .notFound
  | n + 1, path => do
    if path.isEmpty then return .ok ()
    match ← Files.makeDirectory path with
    | .ok () => return .ok ()
    | .error e =>
      if e ≠ .notFound then
        return if ← Files.isDirectory path then .ok () else .error e
      match path.parent? with
      | none => return .error e
      | some parent =>
        match ← createWithin n parent with
        | .ok () => makeMissing path
        | .error e => return .error e

/-- Makes a directory and those that hold it (`create_dir_all`). -/
def createDirectories (path : Path) : m (Except OsError Unit) :=
  createWithin (path.segments.length + 1) path

/-- Creates a file, or empties it, and makes the directories that hold it. The file is open then. -/
def createFile (path : Path) : m (Except Error (Files.Handle m)) := do
  let made ← match path.parent? with
    | none => pure (.ok ())
    | some parent =>
      pure ((← createDirectories parent).mapError fun e =>
        e.toError.within
          (.make .other "failed to create output directory" [("directory", parent.shown)]))
  match made with
  | .error e => return .error e
  | .ok () =>
    return (← Files.create path).mapError fun e =>
      e.toError.within
        (.make .other "failed to open/create file for writing" [("file path", path.shown)])

end Stencil
