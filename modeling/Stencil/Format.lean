import Stencil.Files.Text
import Stencil.Json.Reader
import Stencil.Text.Reading
import Stencil.Toml.Reader
import Stencil.Value.Text

/-!
# Data formats

Data is read from JSON or TOML. A TOML text is always a dictionary, a JSON text any value.
-/

namespace Stencil

/-! ## JSON -/

/-- What prints and parses JSON. -/
structure Json.Library where
  print : Content → List Char
  /-- The content of a text. If it is malformed, there is the rest of it from where it is. -/
  parse : List Char → Except (List Char) Content

/-- JSON as it is printed and read here. -/
def Json.library : Json.Library := ⟨Content.json, Json.read⟩

/-! ## Formats -/

inductive Format where
  | json
  | toml
deriving Repr, DecidableEq

namespace Format

def name : Format → String
  | json => "Json"
  | toml => "Toml"

/-- The error of a text that does not keep to the format from `rest` on. -/
def malformed (f : Format) (text rest : List Char) : Error :=
  let p := Text.Position.after (text.take (text.length - rest.length))
  .make .other "malformed text"
    [("format", f.name), ("line", toString p.line), ("column", toString p.column)]

/-- The error of a text that stands for something else than is asked for. -/
def mismatch (expected : String) : Error :=
  .make .other "unexpected data" [("expected", expected)]

/-- What a text of a format is turned into. -/
abbrev Decoder (α : Type) := Format → List Char → Except Error α

/-- What content stands for, if it is what is asked for. -/
def standsFor {α : Type} (expected : String) : Option α → Except Error α
  | some a => .ok a
  | none => .error (mismatch expected)

/-- The entries of a dictionary, in order. JSON may have several with one key. -/
def entries : Decoder (List (String × Content))
  | json, text => (Json.readEntries text).mapError (malformed json text)
  | toml, text => (Toml.read text).mapError (malformed toml text)

def dict : Decoder (Dict Value) := fun f text =>
  (f.entries text).bind fun es =>
    (standsFor "values" (Value.ofContentEntries? es)).map Dict.ofList

/-- The content of a text, with JSON as a library parses it. -/
def contentBy (lib : Json.Library) : Decoder Content
  | json, text => (lib.parse text).mapError (malformed json text)
  | toml, text => (toml.entries text).map .map

/-- A value, with JSON as a library parses it. -/
def valueBy (lib : Json.Library) : Decoder Value := fun f text =>
  (f.contentBy lib text).bind fun c => standsFor "a value" (Value.ofContent? c)

def value : Decoder Value := valueBy Json.library

def number : Decoder Number := fun f text =>
  (f.contentBy Json.library text).bind fun c => standsFor "a number" (Number.ofContent? c)

variable {m : Type → Type} [Monad m] [Files m]

/-- Reads a source and decodes its text. -/
def read {α : Type} (f : Format) (decode : Decoder α) (source : Source) : m (Except Error α) := do
  match ← source.read with
  | .error e => return .error e
  | .ok text =>
    return (decode f text.toList).within
      (.make .other "failed to deserialize data" [("format", f.name), ("source", source.label)])

end Format

end Stencil
