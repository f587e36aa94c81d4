import Stencil.Error
import Stencil.Value.Text

/-!
# Sinks

A sink is where the text of a template goes. It is prepared once, before anything is written, and
then written to piece by piece. All of it may fail; what was written before stays. The state of a
sink, of type `τ`, is what has come of it so far.

A sink may have its own way with values. One that has none writes their string form.

Results:
* `bytes_write`: a sink of bytes holds the UTF-8 form of what a sink of text holds.
-/

namespace Stencil

/-- Writes the string form of a value by `write` (`write_value`). For null, nothing is written at
all. -/
def writeForm {τ : Type} (write : String → τ → Option Error × τ) (v : Value) (t : τ) :
    Option Error × τ :=
  match v with
  | .null => (none, t)
  | v => write v.text t

structure Sink (τ : Type) where
  prepare : τ → Option Error × τ
  write : String → τ → Option Error × τ
  writeValue : Value → τ → Option Error × τ := writeForm write

namespace Sink

variable {τ : Type}

/-- Collects text. -/
def text : Sink String where
  prepare t := (none, t)
  write piece t := (none, t ++ piece)

/-- Collects the UTF-8 form of text. -/
def bytes : Sink ByteArray where
  prepare t := (none, t)
  write piece t := (none, t ++ piece.toUTF8)

theorem bytes_write (piece t : String) :
    (bytes.write piece t.toUTF8).2 = (text.write piece t).2.toUTF8 := by
  simp [bytes, text]

/-- A sink that hands on what it is asked to another. Values it does not hand on: it writes their
string form by itself. -/
def borrowed (sink : Sink τ) : Sink τ where
  prepare := sink.prepare
  write := sink.write

/-! ## Buffers -/

/-- Bytes on their way into a sink of bytes: those that have arrived, and those held back. -/
structure Buffer where
  arrived : ByteArray
  held : ByteArray

/-- How many bytes are held back at most. -/
def Buffer.capacity : Nat := 8192

/-- Lets everything arrive. -/
def Buffer.flush (b : Buffer) : Buffer := ⟨b.arrived ++ b.held, .empty⟩

/-- Everything written so far. -/
def Buffer.contents (b : Buffer) : ByteArray := b.arrived ++ b.held

/-- Holds a piece back, or lets it arrive at once if it does not fit. What was held back before it
arrives before it. -/
def Buffer.push (b : Buffer) (piece : ByteArray) : Buffer :=
  let b := if Buffer.capacity < b.held.size + piece.size then b.flush else b
  if Buffer.capacity ≤ piece.size then ⟨b.arrived ++ piece, b.held⟩
  else ⟨b.arrived, b.held ++ piece⟩

/-- Collects bytes in a buffer. -/
def buffered : Sink Buffer where
  prepare t := (none, t)
  write piece t := (none, t.push piece.toUTF8)

end Sink

end Stencil
