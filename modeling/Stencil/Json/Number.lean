import Stencil.Text.Reading
import Stencil.Value.Content

/-!
# Numbers in JSON

A number without a point and an exponent is an integer if it is in range. Any other is a float,
which is read as follows. Digits count as long as they make up an integer below 2^64; those behind
are dropped, and a power of ten stands for their places. The integer is rounded to a float first,
and then multiplied or divided by the power of ten, which is rounded as well. So the last bit may
differ from the nearest float. A float that is too large is an error.
-/

namespace Stencil.Json

open Text (Reading startsWithDigit numeral)

def digitValue (c : Char) : Nat := c.toNat - '0'.toNat

/-- Takes digits as long as the integer, continued from `n`, stays below 2^64: the integer, the
number of digits taken, and the rest. -/
def takeDigits (n : Nat) : List Char → Nat × Nat × List Char
  | [] => (n, 0, [])
  | c :: cs =>
    if c.isDigit ∧ 10 * n + digitValue c < UInt64.size then
      let (n, count, rest) := takeDigits (10 * n + digitValue c) cs
      (n, count + 1, rest)
    else (n, 0, c :: cs)

/-- Drops digits: how many, and the rest. -/
def dropDigits (cs : List Char) : Nat × List Char :=
  ((cs.takeWhile Char.isDigit).length, cs.dropWhile Char.isDigit)

/-! ## Floats -/

/-- The power of ten nearest to the true one. -/
def nearestPower (n : Nat) : Binary64 := .ofNat (Binary64.powerOfTen n)

/-- A float that is not negative, times a power of ten. Powers beyond 10^308 are no floats and are
taken in steps. -/
def scale (x : Binary64) (exponent : Int) : Option Binary64 :=
  if exponent.natAbs ≤ 308 then
    let power := nearestPower exponent.natAbs
    if 0 ≤ exponent then
      let y := x.times power
      if y.isInfinite then none else some y
    else some (x.dividedBy power)
  else if x.isZero then some x
  else if 0 ≤ exponent then none
  else scale (x.dividedBy (nearestPower 308)) (exponent + 308)
termination_by exponent.natAbs

/-- The float that an integer and a power of ten make up. -/
def float (negative : Bool) (n : Nat) (exponent : Int) (rest : List Char) : Reading Content :=
  match scale (.ofNat n) exponent with
  | some x => .ok (.float (if negative then x.neg else x), rest)
  | none => .error rest

/-- The exponents that are told apart; beyond them there are zero and infinity. -/
def exponentLimit : Nat := 0x80000000

/-- Reads what follows the letter of an exponent, as a power of ten on top of `start`. -/
def exponentPart (negative : Bool) (n : Nat) (start : Int) (cs : List Char) : Reading Content :=
  let (down, cs) : Bool × List Char :=
    match cs with
    | '+' :: cs => (false, cs)
    | '-' :: cs => (true, cs)
    | cs => (false, cs)
  if startsWithDigit cs then
    let exponent := numeral 10 (cs.takeWhile Char.isDigit)
    let rest := cs.dropWhile Char.isDigit
    if exponent < exponentLimit then
      let limit : Int := exponentLimit
      float negative n
        (if down then max (start - exponent) (-limit) else min (start + exponent) (limit - 1)) rest
    else if n ≠ 0 ∧ !down then .error rest
    else .ok (.float (.ofMagnitude negative 0), rest)
  else .error cs

/-- Reads what follows a float's last digit. -/
def floatEnd (negative : Bool) (n : Nat) (exponent : Int) : List Char → Reading Content
  | 'e' :: cs => exponentPart negative n exponent cs
  | 'E' :: cs => exponentPart negative n exponent cs
  | rest => float negative n exponent rest

/-- Reads what follows the point. -/
def fractionPart (negative : Bool) (n : Nat) (start : Int) (cs : List Char) : Reading Content :=
  if startsWithDigit cs then
    let (n, count, rest) := takeDigits n cs
    floatEnd negative n (start - count) (dropDigits rest).2
  else .error cs

/-! ## Numbers -/

/-- An integer without point and exponent. A zero with a minus is a float: no integer is one. -/
def integer (negative : Bool) (n : Nat) : Content :=
  if !negative then .unsigned (UInt64.ofNat n)
  else if n = 0 ∨ Number.signedLimit < n then .float (.ofRatio true n 1)
  else .signed (Int64.ofInt (-n))

/-- Reads what follows the digits of an integer, of which `dropped` no longer count. -/
def integerEnd (negative : Bool) (n dropped : Nat) : List Char → Reading Content
  | '.' :: cs => fractionPart negative n dropped cs
  | 'e' :: cs => exponentPart negative n dropped cs
  | 'E' :: cs => exponentPart negative n dropped cs
  | rest => if dropped = 0 then .ok (integer negative n, rest) else float negative n dropped rest

/-- Reads a number without a sign. -/
def magnitude (negative : Bool) : List Char → Reading Content
  | '0' :: cs => if startsWithDigit cs then .error cs else integerEnd negative 0 0 cs
  | cs =>
    if startsWithDigit cs then
      let (n, _, rest) := takeDigits 0 cs
      let (dropped, rest) := dropDigits rest
      integerEnd negative n dropped rest
    else .error cs

/-- Reads a number. -/
def number : List Char → Reading Content
  | '-' :: cs => magnitude true cs
  | cs => magnitude false cs

end Stencil.Json
