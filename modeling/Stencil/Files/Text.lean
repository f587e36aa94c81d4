import Stencil.Execution.Sink
import Stencil.Files.Basic

/-!
# Text from files and to files

Text comes from a string, from a file by its path, or from a file that is open already. The bytes of
a file are text if they are UTF-8.

Text goes to an open file, from where that is written to, or to a path. To prepare a path is to
create its file; the file is opened anew for each piece, at its end.
-/

namespace Stencil

/-! ## Sources -/

inductive Source where
  | text (s : String)
  | path (path : Path)
  /-- The file at a path, open. Errors do not tell its path. -/
  | opened (path : Path)

namespace Source

/-- How errors call the source. -/
def label : Source → String
  | path p => p.shown
  | _ => "<string>"

/-- Bytes as text if they are, or else as they are. -/
def ofBytes (bytes : ByteArray) : String ⊕ ByteArray :=
  match String.fromUTF8? bytes with
  | some s => .inl s
  | none => .inr bytes

def openFailure (path : Path) : Error :=
  .make .other "failed to open file for reading" [("file path", path.shown)]

variable {m : Type → Type} [Monad m] [Files m]

/-- The text of the source, or its bytes if they are no text. -/
def contents : Source → m (Except Error (String ⊕ ByteArray))
  | text s => return .ok (.inl s)
  | path p => do
    match ← Files.read p with
    | .ok bytes => return .ok (ofBytes bytes)
    | .error (.opening e) => return .error (e.toError.within (openFailure p))
    | .error (.reading e) => return .error e.toError
  | opened p => do
    match ← Files.read p with
    | .ok bytes => return .ok (ofBytes bytes)
    | .error (.opening e) => return .error e.toError
    | .error (.reading e) => return .error e.toError

/-- The text of the source (`read_str`). -/
def read (source : Source) : m (Except Error String) := do
  match ← source.contents with
  | .ok (.inl s) => return .ok s
  | .ok (.inr _) =>
    return .error (.make .other "template source contained invalid UTF-8"
      [("source", source.label)])
  | .error e => return .error e

end Source

/-! ## Sinks -/

namespace Sink

variable {ω : Type} [Files (StateM ω)]

/-- An open file, in a world of files. -/
def openFile : Sink (ω × Files.Handle (StateM ω)) where
  prepare target := (none, target)
  write := fun piece (w, file) =>
    match (Files.write (m := StateM ω) file piece.toUTF8).run w with
    | (.ok file, w) => (none, (w, file))
    | (.error e, w) => (some e.toError, (w, file))

/-- A path, in a world of files. -/
def path (path : Path) : Sink ω where
  prepare w :=
    match (createFile (m := StateM ω) path).run w with
    | (.ok _, w) => (none, w)
    | (.error e, w) => (some e, w)
  write piece w :=
    match (Files.openEnd (m := StateM ω) path).run w with
    | (.ok file, w) =>
      let (result, w) := (Files.write (m := StateM ω) file piece.toUTF8).run w
      (match result with
        | .ok _ => none
        | .error e => some e.toError, w)
    | (.error e, w) =>
      (some (e.toError.within
        (.make .other "failed to open file for writing" [("file path", path.shown)])), w)

end Sink

end Stencil
