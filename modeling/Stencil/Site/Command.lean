import Stencil.Site.Basic
import Stencil.Text.Quoted

/-!
# The command

The command renders a directory of templates into another directory. It reports each stage as it is
done, and stops at the first error.
-/

namespace Stencil.Site

structure Options where
  input : String
  output : String
  dataFile : Option String
  verbose : Bool
deriving Repr, DecidableEq

inductive Stage where
  | config
  | discovery
  | render
  | total
deriving Repr, DecidableEq

def Stage.name : Stage → String
  | config => "config"
  | discovery => "discovery"
  | render => "render"
  | total => "total"

/-- What is printed before the time that a stage has taken. -/
def Stage.label (s : Stage) : String := s!"{s.name} time:"

/-- Loads the configuration, finds the templates and renders them. -/
def run {m : Type → Type} [Monad m] [Files m] (walk : Walker m) (report : Stage → m Unit)
    (options : Options) : m (Except Error Unit) := do
  match ← Config.load options.input (options.dataFile.map Path.ofText) with
  | .error e => return .error e
  | .ok config =>
    report .config
    match ← Engine.discover walk options.input config.settings with
    | .error e => return .error e
    | .ok engine =>
      report .discovery
      let engine ← engine.compiled
      match ← renderAll engine options.output config.data with
      | .error e => return .error e
      | .ok _ =>
        report .render
        report .total
        return .ok ()

/-! ## Arguments -/

/-- What the arguments ask for. -/
inductive Request where
  | run (options : Options)
  | help
  /-- The arguments are not understood. -/
  | unusable (message : String)
deriving Repr, DecidableEq

/-- The arguments so far: the paths, and the value of each flag by each of its uses. -/
structure Arguments where
  paths : List String
  dataFiles : List String
  verbose : Nat

/-- Takes a path, if there may be one more. -/
def Arguments.addPath (a : Arguments) (path : String) : Except Request Arguments :=
  if a.paths.length < 2 then .ok { a with paths := a.paths ++ [path] }
  else .error (.unusable s!"unexpected argument: {Text.quoted path}")

def isFlag (arg : String) : Bool := arg.toList.head? = some '-'

/-- Takes arguments one by one. Behind `--` there are paths only. -/
def takeArguments (a : Arguments) : List String → Except Request Arguments
  | [] => .ok a
  | arg :: args =>
    if arg = "--" then args.foldlM Arguments.addPath a
    else if !isFlag arg then (a.addPath arg).bind fun a => takeArguments a args
    else if arg = "--help" ∨ arg = "-h" then .error .help
    else if arg = "--verbose" ∨ arg = "-v" then
      takeArguments { a with verbose := a.verbose + 1 } args
    else if arg = "--data" ∨ arg = "-d" then
      match args with
      | [] => .error (.unusable s!"expected a value for `{arg}`")
      | file :: args => takeArguments { a with dataFiles := a.dataFiles ++ [file] } args
    else .error (.unusable s!"unexpected flag: `{arg}`")

def required (name : String) : Request := .unusable s!"flag is required: `{name}`"

def repeated (flag : String) : Request :=
  .unusable s!"flag specified more than once: `{flag}`"

/-- What the arguments add up to. A flag used twice is told before a path that is missing. -/
def Arguments.request (a : Arguments) : Request :=
  if 1 < a.dataFiles.length then repeated "--data"
  else if 1 < a.verbose then repeated "--verbose"
  else
    match a.paths with
    | [] => required "input"
    | [_] => required "output"
    | input :: output :: _ => .run ⟨input, output, a.dataFiles.head?, 0 < a.verbose⟩

def Request.ofArguments (args : List String) : Request :=
  match takeArguments ⟨[], [], 0⟩ args with
  | .ok a => a.request
  | .error r => r

/-! ## Texts -/

def helpText : String :=
  "\n".intercalate [
    "scribe",
    "  Renders every template in a directory into another directory.",
    "",
    "ARGS:",
    "    <input>",
    "      Directory of templates and an optional `scribe.toml`.",
    "",
    "    <output>",
    "      Directory to write rendered files to.",
    "",
    "OPTIONS:",
    "    -d, --data <data>",
    "      A TOML or JSON file of data to render templates with.",
    "",
    "    -v, --verbose",
    "      Log at debug level.",
    "",
    "    -h, --help",
    "      Prints help information.",
    ""]

/-- What is printed for an error that ends the command. -/
def errorText (e : Error) : String := s!"error: {e.report}\n"

end Stencil.Site
