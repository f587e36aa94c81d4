import Stencil.Number.Shortest

/-!
# Numbers

A number is an unsigned or a signed integer of 64 bits, or a binary floating point number. Integers
are compared as integers; as soon as one side is a float, both are compared as floats.

Results:
* `equal_comm`: numbers are compared both ways alike.
-/

namespace Stencil

inductive Number where
  | unsigned (n : UInt64)
  | signed (n : Int64)
  | float (x : Binary64)
deriving Repr, DecidableEq

namespace Number

/-- The value of an integer. -/
def toInt? : Number → Option Int
  | unsigned n => some n.toNat
  | signed n => some n.toInt
  | float _ => none

/-- The value as a float (`to_f64_lossy`). An integer that no float has is rounded. -/
def toFloat : Number → Binary64
  | unsigned n => .ofNat n.toNat
  | signed n => .ofInt n.toInt
  | float x => x

/-- One more than the greatest signed integer of 64 bits: the least one without its sign. -/
def signedLimit : Int := 0x8000000000000000

def equal (a b : Number) : Bool :=
  match a.toInt?, b.toInt? with
  | some m, some n => m = n
  | _, _ => a.toFloat.equal b.toFloat

theorem equal_comm (a b : Number) : a.equal b = b.equal a := by
  unfold equal
  cases a.toInt? <;> cases b.toInt? <;>
    simp only [Binary64.equal_comm, eq_comm]

/-! ## Text -/

/-- Decimal digits, behind a minus sign if the integer is negative. -/
def integerText (n : Int) : List Char :=
  if n < 0 then '-' :: Nat.toDigits 10 n.natAbs else Nat.toDigits 10 n.natAbs

/-- A float on its own has no exponent, however large or small it is, and no fraction if it is
whole. -/
def plainLayout : Binary64.Layout where
  tie := .up
  positional _ := true
  pointZero := false
  nan := ['N', 'a', 'N']
  infinite negative := if negative then ['-', 'i', 'n', 'f'] else ['i', 'n', 'f']

/-- The text of a number on its own. -/
def text : Number → List Char
  | unsigned n => integerText n.toNat
  | signed n => integerText n.toInt
  | float x => x.written plainLayout

end Number

end Stencil
