import Stencil.Autoescape
import Stencil.Deferred
import Stencil.Execution.Basic
import Stencil.Files.Walk
import Stencil.Settings
import Stencil.Tree.Reader

/-!
# Templates and engines

A template is a document that has been read from text and, if asked for, escaped.

An engine holds the templates below a directory, each under its path from there. A template is read
and compiled when it is first used; a file without actions is not compiled, but written as it is.
-/

namespace Stencil

structure Template where
  document : Document

namespace Template

def name (t : Template) : String := t.document.name

/-- Reads a template from text, and escapes it if asked for (`compile_with`). -/
def compile (name text : String) (autoescape : Bool) : Except Error Template := do
  let d ← Document.ofText name text
  return ⟨← if autoescape then d.escape else .ok d⟩

/-- Reads a template from a source. -/
def read {m : Type → Type} [Monad m] [Files m] (name : String) (source : Source)
    (autoescape : Bool) : m (Except Error Template) := do
  match ← source.read with
  | .ok text => return compile name text autoescape
  | .error e =>
    return .error (e.within (.make .other "failed to read template" [("template", name)]))

/-- Executes the template under its own name (`render_to`). -/
def renderTo {σ τ : Type} (t : Template) (sink : Sink τ) (data : Members σ) (state : σ)
    (target : τ) : Run σ τ :=
  t.document.execute t.name sink data state target

/-- The text of the template, and the state of the data behind it. -/
def render {σ : Type} (t : Template) (data : Members σ) (state : σ) : Except Error String × σ :=
  let run := t.renderTo .text data state ""
  (match run.error with
    | none => .ok run.sink
    | some e => .error e, run.data)

end Template

inductive Compiled where
  | template (t : Template)
  /-- The text of a file without actions. -/
  | verbatim (text : String)

structure Engine (m : Type → Type) where
  root : Path
  settings : Settings
  templates : Dict (Deferred m Compiled)

namespace Engine

variable {m : Type → Type}

/-- The names of all templates, in order. -/
def names (e : Engine m) : List String := e.templates.keys

variable [Monad m]

section

variable [Files m]

/-- Reads and compiles the file at a path. -/
def compile (name : String) (path : Path) (autoescape : Bool) : m (Except Error Compiled) := do
  match ← (Source.path path).read with
  | .error e => return .error e
  | .ok text =>
    if isTemplate text then return (Template.compile name text autoescape).map .template
    else return .ok (.verbatim text)

/-- The name of a path below another (`relative_name`): its components from there, as they are
shown. -/
def relativeName? (root path : Path) : Option String :=
  (root.behind? path).map fun names => "/".intercalate (names.map Name.shown)

/-- The template in what a walk finds below the root, if there is one, under its name. -/
def template? (root : Path) (settings : Settings) (entry : WalkEntry) :
    Option (String × Deferred m Compiled) :=
  if !entry.isFile || !settings.isTemplatePath entry.path then none
  else (relativeName? root entry.path).map fun name =>
    (name, .pending (compile name entry.path settings.autoescape))

/-- Finds the templates below a directory, where it is walked through like this. -/
def discover (walk : Walker m) (root : Path) (settings : Settings) :
    m (Except Error (Engine m)) := do
  if !(← Files.isDirectory root) then
    return .error (.make .io "template root is not a directory" [("root", root.shown)])
  let found ← walk root
  return ((found.mapM id).map fun entries =>
    ⟨root, settings, Dict.ofList (entries.filterMap (template? root settings))⟩).within
      (.make .io "failed to walk template directory" [("root", root.shown)])

end

def notFound (root : Path) (name : String) : Error :=
  .make .notFound "no such template" [("template", name), ("root", root.shown)]

/-- The compiled template of a name, and the engine that holds it. -/
def get (e : Engine m) (name : String) : m (Except Error Compiled × Engine m) := do
  match e.templates.get? name with
  | none => return (.error (notFound e.root name), e)
  | some d =>
    let (result, d) ← d.force
    return (result, { e with templates := e.templates.insert name d })

/-- Compiles the templates of these names. -/
def compileAll : List String → Engine m → m (Engine m)
  | [], e => return e
  | name :: names, e => do
    let (_, e) ← e.get name
    compileAll names e

/-- Compiles all templates (`compile_in_background`). -/
def compiled (e : Engine m) : m (Engine m) := compileAll e.names e

/-- Writes a text as it is. -/
def writeVerbatim {σ τ : Type} (text : String) (sink : Sink τ) (state : σ) (target : τ) : Run σ τ :=
  match sink.prepare target with
  | (some e, target) => ⟨some e, state, target⟩
  | (none, target) =>
    let (error, target) := sink.write text target
    ⟨error, state, target⟩

/-- Renders the template of a name. Its data is that given, and that of the settings behind it. -/
def render {σ τ : Type} (e : Engine m) (name : String) (sink : Sink τ) (data : Members σ)
    (state : σ) (target : τ) : m (Run σ τ × Engine m) := do
  let (result, e) ← e.get name
  let run := match result with
    | .error error => ⟨some error, state, target⟩
    | .ok (.verbatim text) => writeVerbatim text sink state target
    | .ok (.template t) => t.renderTo sink (data.orElse (.ofDict e.settings.data)) state target
  return (run, e)

end Engine

end Stencil
