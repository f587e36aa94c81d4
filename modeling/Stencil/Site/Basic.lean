import Stencil.Engine

/-!
# Sites

The settings of a site are in the file `scribe.toml` of its directory, if there is one. Data for its
templates may be in one more file, whose extension tells the format.

Each template is rendered to a file of the same name below the directory for output. The file is
there before the template is compiled, so it is left empty if that fails, and holds what has been
written up to then if the rendering fails.
-/

namespace Stencil.Site

/-! ## Configuration -/

def settingsFile : String := "scribe.toml"

structure Config where
  settings : Settings
  data : Dict Value

/-- The format of a data file. -/
def dataFormat? (path : Path) : Option Format :=
  match path.extension?.bind Name.text? with
  | some "toml" => some .toml
  | some "json" => some .json
  | _ => none

variable {m : Type → Type} [Monad m] [Files m]

def readData (path : Path) : m (Except Error (Dict Value)) :=
  match dataFormat? path with
  | some f => f.read Format.dict (.path path)
  | none =>
    return .error (.make .other "unsupported data file format"
      [("expected", "a .toml or .json file")])

def Config.load (input : Path) (dataFile : Option Path) : m (Except Error Config) := do
  let path := input.join settingsFile
  let settings ← if ← Files.isFile path then Settings.read path else pure (.ok .default)
  match settings with
  | .error e => return .error e
  | .ok settings =>
    match dataFile with
    | none => return .ok ⟨settings, []⟩
    | some file =>
      return ((← readData file).map fun data => ⟨settings, data⟩).within
        (.make .other "failed to load template data" [("path", file.shown)])

/-! ## Rendering -/

/-- Renders one template to its file. -/
def renderFile (engine : Engine m) (output : Path) (data : Dict Value) (name : String) :
    m (Except Error Unit × Engine m) := do
  let path := output.join name
  match ← createFile path with
  | .error e => return (.error e, engine)
  | .ok file =>
    let (run, engine) ← engine.render name .bytes (.ofDict data : Members Unit) () .empty
    let written := (← Files.write file run.sink).mapError OsError.toError
    let result : Except Error Unit := match run.error with
      | some e => .error e
      | none => written.map fun _ => ()
    return (result.within
      (.make .other "failed to render template"
        [("template", name), ("output", path.shown)]), engine)

/-- Renders templates one by one, up to the first that fails. -/
def renderFiles (output : Path) (data : Dict Value) :
    List String → Engine m → m (Except Error Unit)
  | [], _ => return .ok ()
  | name :: names, engine => do
    match ← renderFile engine output data name with
    | (.error e, _) => return .error e
    | (.ok (), engine) => renderFiles output data names engine

/-- Renders all templates, and gives their number (`render_all`). -/
def renderAll (engine : Engine m) (output : Path) (data : Dict Value) : m (Except Error Nat) := do
  let result ← renderFiles output data engine.names engine
  return result.map fun () => engine.names.length

end Stencil.Site
