import Stencil.Text.Bytes

/-!
# Reading text

A reader takes a text and gives what it has read and the rest of the text, or the rest at which it
fails. Here are the parts that readers of different formats share, and the positions that they tell.

Lines and columns both start at one; a column counts characters. `positionAt` turns a byte offset
into a position. An offset past the end stands for the end, and one inside a character for the first
column of its line.

Results:
* `positionAt_append`: at a boundary between characters the position depends on the text before it
  only, and is `Position.after` that text.
-/

namespace Stencil.Text

/-! ## Lines and columns -/

structure Position where
  line : Nat
  column : Nat
deriving Repr, DecidableEq

namespace Position

def start : Position := ⟨1, 1⟩

/-- The position behind `c`. -/
def next (p : Position) (c : Char) : Position :=
  if c = '\n' then ⟨p.line + 1, 1⟩ else ⟨p.line, p.column + 1⟩

/-- The position behind a whole text. -/
def after (cs : List Char) : Position := cs.foldl next start

end Position

/-- Walks `n` bytes on from the position `p`. -/
def walkBytes (p : Position) : List Char → Nat → Position
  | [], _ => p
  | _ :: _, 0 => p
  | c :: cs, n + 1 =>
    if c.utf8Size ≤ n + 1 then walkBytes (p.next c) cs (n + 1 - c.utf8Size) else ⟨p.line, 1⟩

/-- The position of the byte `offset` in `source` (`line_column`). -/
def positionAt (source : List Char) (offset : Nat) : Position :=
  walkBytes .start source offset

theorem walkBytes_append (p : Position) (cs ds : List Char) :
    walkBytes p (cs ++ ds) (byteSize cs) = cs.foldl Position.next p := by
  induction cs generalizing p with
  | nil => cases ds <;> simp [walkBytes]
  | cons c cs ih =>
    have hc : 0 < c.utf8Size := c.utf8Size_pos
    obtain ⟨n, hn⟩ : ∃ n, byteSize (c :: cs) = n + 1 := ⟨c.utf8Size + byteSize cs - 1, by
      rw [byteSize_cons]; omega⟩
    have hn' : n + 1 = c.utf8Size + byteSize cs := by rw [← hn, byteSize_cons]
    have hs : n + 1 - c.utf8Size = byteSize cs := by omega
    have hle : c.utf8Size ≤ n + 1 := by omega
    rw [hn, List.cons_append, walkBytes, if_pos hle, hs, ih]
    rfl

theorem positionAt_append (cs ds : List Char) :
    positionAt (cs ++ ds) (byteSize cs) = Position.after cs :=
  walkBytes_append .start cs ds

/-! ## Readers -/

/-- The rest of the text at which a reader fails, or what it has read and the rest behind that. -/
abbrev Reading (α : Type) := Except (List Char) (α × List Char)

def startsWithDigit : List Char → Bool
  | c :: _ => c.isDigit
  | [] => false

/-- The value of a hexadecimal digit of either case. -/
def hexValue? (c : Char) : Option Nat :=
  if c.isDigit then some (c.toNat - '0'.toNat)
  else if 'a' ≤ c ∧ c ≤ 'f' then some (c.toNat - 'a'.toNat + 10)
  else if 'A' ≤ c ∧ c ≤ 'F' then some (c.toNat - 'A'.toNat + 10)
  else none

/-- The number that digits stand for in a base; other characters count as nothing. -/
def numeral (base : Nat) (digits : List Char) : Nat :=
  digits.foldl (fun n c => base * n + (hexValue? c).getD 0) 0

/-- The value of `n` hexadecimal digits, and the rest. -/
def takeHex? (n : Nat) (cs : List Char) : Option (Nat × List Char) :=
  let digits := cs.take n
  if digits.length = n ∧ digits.all fun c => (hexValue? c).isSome then
    some (numeral 16 digits, cs.drop n)
  else none

end Stencil.Text
