/-!
# Binary floating point numbers

A number in 64 bits is a sign, an exponent and a fraction. Every finite number is a whole multiple
of 2^-1074, and `units` is how many times that. So sums of rounding questions turn into questions
about natural numbers: `ofRatio` gives the number nearest to a quotient, and everything else that
rounds goes through it.

Results:
* `equal_comm`: numbers are compared by value both ways alike.
-/

namespace Stencil

structure Binary64 where
  bits : UInt64
deriving Repr, DecidableEq

namespace Binary64

/-- The bits of infinity, and the least that stand for no finite magnitude. -/
def infinityBits : Nat := 0x7FF0000000000000

/-- The bit of the sign. -/
def signBit : Nat := 0x8000000000000000

/-- The leading bit of a significand. It is not stored: all but the smallest numbers have it. -/
def leadingBit : Nat := 0x10000000000000

/-- The bits but for the sign. -/
def magnitudeBits (x : Binary64) : Nat := x.bits.toNat % signBit

def isNegative (x : Binary64) : Bool := signBit ≤ x.bits.toNat

def isFinite (x : Binary64) : Bool := x.magnitudeBits < infinityBits

def isInfinite (x : Binary64) : Bool := x.magnitudeBits = infinityBits

def isNaN (x : Binary64) : Bool := infinityBits < x.magnitudeBits

def isZero (x : Binary64) : Bool := x.magnitudeBits = 0

/-- The binary places by which the significand is shifted. -/
def shift (x : Binary64) : Nat := x.magnitudeBits / leadingBit - 1

/-- The significand with its leading bit. -/
def significand (x : Binary64) : Nat := x.magnitudeBits - x.shift * leadingBit

/-- The magnitude of a finite number in multiples of 2^-1074. -/
def units (x : Binary64) : Nat := x.significand <<< x.shift

/-- The multiples of 2^-1074 in one. -/
def unitsOfOne : Nat := 1 <<< 1074

def ofMagnitude (negative : Bool) (bits : Nat) : Binary64 :=
  ⟨UInt64.ofNat (if negative then signBit + bits else bits)⟩

def zero : Binary64 := ofMagnitude false 0

def infinity (negative : Bool) : Binary64 := ofMagnitude negative infinityBits

/-- One that is not a number. -/
def nan (negative : Bool) : Binary64 := ofMagnitude negative (infinityBits + leadingBit / 2)

def neg (x : Binary64) : Binary64 := ofMagnitude (!x.isNegative) x.magnitudeBits

/-! ## Rounding -/

/-- The whole number nearest to a quotient; of two that are equally near, the even one. -/
def roundedDiv (num den : Nat) : Nat :=
  let q := num / den
  let twice := 2 * (num % den)
  if twice < den || (twice == den && q % 2 == 0) then q else q + 1

/-- The bits of the magnitude nearest to `num / den`. A significand that is rounded up to the next
power of two carries over into the exponent, and from the greatest exponent into infinity. -/
def nearestBits (num den : Nat) : Nat :=
  let scaled := num * unitsOfOne
  let places := Nat.log2 (scaled / den) - 52
  min (places * leadingBit + roundedDiv scaled (den <<< places)) infinityBits

/-- The number nearest to `num / den`; of two that are equally near, the one with an even
significand. -/
def ofRatio (negative : Bool) (num den : Nat) : Binary64 :=
  ofMagnitude negative (nearestBits num den)

def ofNat (n : Nat) : Binary64 := ofRatio false n 1

def ofInt (n : Int) : Binary64 := ofRatio (n < 0) n.natAbs 1

/-- The product of two finite numbers that are not negative, rounded. -/
def times (x y : Binary64) : Binary64 :=
  ofRatio false (x.units * y.units) (unitsOfOne * unitsOfOne)

/-- The quotient of two finite numbers that are not negative, rounded. -/
def dividedBy (x y : Binary64) : Binary64 := ofRatio false x.units y.units

/-- Ten to the power of `n`. -/
def powerOfTen (n : Nat) : Nat := Nat.pow 10 n

/-- The number nearest to `digits * 10 ^ exponent`. Beyond the given exponents everything is
infinite or zero: `digits` is at least one and has `length` digits. -/
def ofDecimal (negative : Bool) (digits length : Nat) (exponent : Int) : Binary64 :=
  if digits = 0 then ofMagnitude negative 0
  else if 400 < exponent + length then infinity negative
  else if exponent + length < -400 then ofMagnitude negative 0
  else if 0 ≤ exponent then ofRatio negative (digits * powerOfTen exponent.toNat) 1
  else ofRatio negative digits (powerOfTen (-exponent).toNat)

/-! ## Comparison -/

/-- Equal by value: zero is zero with either sign, and what is no number equals nothing. -/
def equal (x y : Binary64) : Bool :=
  !x.isNaN && !y.isNaN && (x.bits == y.bits || (x.isZero && y.isZero))

theorem equal_comm (x y : Binary64) : x.equal y = y.equal x := by
  simp only [equal]
  rw [Bool.beq_comm (a := x.bits), Bool.and_comm (x := x.isZero)]
  cases x.isNaN <;> cases y.isNaN <;> rfl

end Binary64

end Stencil
