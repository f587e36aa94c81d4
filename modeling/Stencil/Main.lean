import Stencil.Site.Command

/-!
# The program

The command on the files of the system. Arguments that are not understood end it with 2, and errors
with 1; both are told on the error output. Each stage is reported with the milliseconds it has
taken.
-/

namespace Stencil.Site

/-- An error of the system as one of a file. -/
def ofSystem : IO.Error → OsError
  | .noFileOrDirectory .. => .notFound
  | .alreadyExists _ code text => ⟨some code.toNat, text⟩
  | .interrupted _ code text => ⟨some code.toNat, text⟩
  | .invalidArgument _ code text => ⟨some code.toNat, text⟩
  | .permissionDenied _ code text => ⟨some code.toNat, text⟩
  | .resourceExhausted _ code text => ⟨some code.toNat, text⟩
  | .inappropriateType _ code text => ⟨some code.toNat, text⟩
  | .noSuchThing _ code text => ⟨some code.toNat, text⟩
  | .resourceBusy code text => ⟨some code.toNat, text⟩
  | .resourceVanished code text => ⟨some code.toNat, text⟩
  | .unsupportedOperation code text => ⟨some code.toNat, text⟩
  | .hardwareFault code text => ⟨some code.toNat, text⟩
  | .unsatisfiedConstraints code text => ⟨some code.toNat, text⟩
  | .illegalOperation code text => ⟨some code.toNat, text⟩
  | .protocolError code text => ⟨some code.toNat, text⟩
  | .timeExpired code text => ⟨some code.toNat, text⟩
  | .otherError code text => ⟨some code.toNat, text⟩
  | e => ⟨none, toString e⟩

/-- Does something with files, and catches its error. -/
def attempt {α : Type} (action : IO α) : IO (Except OsError α) := do
  match ← action.toBaseIO with
  | .ok a => return .ok a
  | .error e => return .error (ofSystem e)

/-- A path by itself. -/
def entry (path : Path) : IO.FS.DirEntry := ⟨path.shown, ""⟩

/-- What is found at the end of all links. -/
def foundAt (e : IO.FS.DirEntry) : IO Found := do
  match ← attempt e.path.metadata with
  | .error e => return .failure e
  | .ok data =>
    match data.type with
    | .file => return .file
    | .dir => return .directory
    | _ => return .other

/-- What is told of a link: that it is one, but not where it leads. -/
def unnamedTarget : Path := .relative []

instance : Files IO where
  Handle := IO.FS.Handle
  isDirectory path := (entry path).root.isDir
  isFile path := do
    match ← attempt (entry path).root.metadata with
    | .ok data => return data.type == .file
    | .error _ => return false
  link? path := do
    match ← attempt (entry path).root.symlinkMetadata with
    | .ok data => return if data.type == .symlink then some unnamedTarget else none
    | .error _ => return none
  read path := do
    match ← attempt (IO.FS.Handle.mk path.shown .read) with
    | .error e => return .error (.opening e)
    | .ok file => return (← attempt file.readBinToEnd).mapError .reading
  list path := do
    match ← attempt (entry path).root.readDir with
    | .error e => return .error e
    | .ok entries =>
      return .ok (← entries.toList.mapM fun e => return (.ofText e.fileName, ← foundAt e))
  makeDirectory path := attempt (IO.FS.createDir path.shown)
  create path := attempt (IO.FS.Handle.mk path.shown .write)
  openEnd path := attempt (IO.FS.Handle.mk path.shown .append)
  write file bytes := attempt do
    file.write bytes
    return file

/-- Reports a stage with the time since the one before it, or with all the time for the total. -/
def reportTime (start : Nat) (last : IO.Ref Nat) (stage : Stage) : IO Unit := do
  let now ← IO.monoMsNow
  let previous ← last.get
  let time := now - if stage = .total then start else previous
  IO.println s!"{stage.label} {time}ms"
  last.set now

/-- Runs the command with the options given. -/
def runTimed (options : Options) : IO UInt32 := do
  let start ← IO.monoMsNow
  let last ← IO.mkRef start
  match ← run walkFiles (reportTime start last) options with
  | .ok () => return 0
  | .error e =>
    IO.eprint (errorText e)
    return 1

/-- Does what the arguments ask for, and gives the exit code. -/
def perform : Request → IO UInt32
  | .help => do
    IO.println helpText
    return 0
  | .unusable message => do
    IO.eprintln message
    return 2
  | .run options => runTimed options

end Stencil.Site

/-- The program. -/
def main (args : List String) : IO UInt32 :=
  Stencil.Site.perform (.ofArguments args)
