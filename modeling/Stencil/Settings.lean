import Stencil.Format

/-!
# Settings

Which files are templates, whether they are escaped, and data for all of them. In a file of
settings, everything that is no setting is data.
-/

namespace Stencil

structure Settings where
  /-- The extensions of templates, in any case. -/
  extensions : List String
  autoescape : Bool
  data : Dict Value

namespace Settings

def default : Settings := ⟨["html", "htm", "xml"], true, []⟩

instance : Inhabited Settings := ⟨default⟩

def strings : List Content → Except Error (List String)
  | [] => .ok []
  | .string s :: cs => (strings cs).map (s :: ·)
  | _ :: _ => .error (Format.mismatch "a string")

def extensionsOf : Content → Except Error (List String)
  | .sequence cs => strings cs
  | _ => .error (Format.mismatch "an array")

def autoescapeOf : Content → Except Error Bool
  | .bool b => .ok b
  | _ => .error (Format.mismatch "a boolean")

/-- A setting that is given at most once. -/
def setting {α : Type} (entries : List (String × Content)) (key : String) (default : α)
    (ofContent : Content → Except Error α) : Except Error α :=
  match entries.filter fun e => e.1 = key with
  | [] => .ok default
  | [(_, c)] => ofContent c
  | _ => .error (.make .other "duplicate setting" [("key", key)])

def ofEntries (entries : List (String × Content)) : Except Error Settings := do
  let extensions ← setting entries "extensions" default.extensions extensionsOf
  let autoescape ← setting entries "autoescape" default.autoescape autoescapeOf
  let rest := entries.filter fun e => e.1 ≠ "extensions" ∧ e.1 ≠ "autoescape"
  let data ← Format.standsFor "values" (Value.ofContentEntries? rest)
  return { extensions, autoescape, data := Dict.ofList data }

def decode : Format.Decoder Settings := fun f text => (f.entries text).bind ofEntries

/-- Reads settings from a TOML file. -/
def read {m : Type → Type} [Monad m] [Files m] (path : Path) : m (Except Error Settings) :=
  Format.toml.read decode (.path path)

/-- The same but for the case of ASCII letters. -/
def sameIgnoringCase (a b : String) : Bool := a.map Char.toLower = b.map Char.toLower

/-- A file at the path is a template (`is_template_path`). -/
def isTemplatePath (s : Settings) (path : Path) : Bool :=
  match path.extension?.bind Name.text? with
  | some extension => s.extensions.any (sameIgnoringCase extension)
  | none => false

end Settings

end Stencil
