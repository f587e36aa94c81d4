import Stencil.Number.Binary64

/-!
# Shortest decimal text

The decimal digits of a finite number are the fewest that read back as the number, and of those the
nearest to it. For one digit, two digits and so on, there is a grid of decimals with that many
digits; the first grid with a point that reads back has it next to the number, above or below. A
`Layout` says how the digits are written.
-/

namespace Stencil.Binary64

/-- Which of two decimals equally near to a number is taken. -/
inductive Tie where
  /-- The greater one. -/
  | up
  /-- The one with the even last digit. -/
  | even
deriving Repr, DecidableEq

/-- Significant digits, and the power of ten that the first of them counts. -/
structure Decimal where
  digits : List Char
  exponent : Int
deriving Repr, DecidableEq

/-- The decimals that read back as a number, in multiples of `1 / denominator`. -/
structure Interval where
  low : Nat
  value : Nat
  high : Nat
  denominator : Nat
  /-- The ends belong to it. -/
  closed : Bool

/-- All that is nearer to the number than to its neighbours. The neighbour below a power of two is
nearer than the one above. -/
def interval (x : Binary64) : Interval :=
  let m := x.significand
  let below := if m = leadingBit ∧ 0 < x.shift then 1 else 2
  let unit := 1 <<< x.shift
  ⟨(4 * m - below) * unit, 4 * m * unit, (4 * m + 2) * unit, 4 * unitsOfOne, m % 2 = 0⟩

/-- The number of decimal digits. -/
def digitCount (n : Nat) : Nat := (Nat.toDigits 10 n).length

/-- The greatest power of ten that is not above the value. -/
def Interval.magnitude (i : Interval) : Int :=
  digitCount (i.value * powerOfTen 400 / i.denominator) - 401

/-- The decimal `n * 10 ^ exponent` as a numerator and a denominator. -/
def timesPower (n : Nat) (exponent : Int) : Nat × Nat :=
  if 0 ≤ exponent then (n * powerOfTen exponent.toNat, 1) else (n, powerOfTen (-exponent).toNat)

/-- The decimal `n * 10 ^ exponent` reads back as the number. -/
def Interval.holds (i : Interval) (exponent : Int) (n : Nat) : Bool :=
  let (num, den) := timesPower n exponent
  let point := num * i.denominator
  if i.closed then i.low * den ≤ point && point ≤ i.high * den
  else i.low * den < point && point < i.high * den

/-- The point of the grid of step `10 ^ exponent` that reads back as the number and is nearest to
it. -/
def Interval.nearest? (tie : Tie) (i : Interval) (exponent : Int) : Option Nat :=
  let (num, den) := timesPower 1 exponent
  let step := num * i.denominator
  let value := i.value * den
  let below := value / step
  let twice := 2 * (value % step)
  let upper : Bool := step < twice ∨ (step = twice ∧ (tie = .up ∨ below % 2 = 1))
  match i.holds exponent below, i.holds exponent (below + 1) with
  | true, true => some (if upper then below + 1 else below)
  | true, false => some below
  | false, true => some (below + 1)
  | false, false => none

/-- The digits of a number without the zeros at its end. -/
def significantDigits (n : Nat) : List Char :=
  ((Nat.toDigits 10 n).reverse.dropWhile (· = '0')).reverse

/-- The shortest decimal of a finite magnitude. Seventeen digits are always enough. -/
def shortest (tie : Tie) (x : Binary64) : Decimal :=
  if x.isZero then ⟨['0'], 0⟩
  else
    let i := x.interval
    let first := i.magnitude
    let found := (List.range 17).findSome? fun (places : Nat) =>
      let exponent := first - places
      (i.nearest? tie exponent).map fun n => (n, exponent)
    let (n, exponent) := found.getD (0, 0)
    ⟨significantDigits n, exponent + digitCount n - 1⟩

/-! ## Layout -/

/-- How a number is written. -/
structure Layout where
  tie : Tie
  /-- The exponents that are written by the place of the point. -/
  positional : Int → Bool
  /-- Whole numbers get a point and a zero. -/
  pointZero : Bool
  /-- The text of what is no number, and of infinity by its sign. -/
  nan : List Char
  infinite : Bool → List Char

/-- Digits with the point at its place. -/
def Layout.point (l : Layout) (d : Decimal) : List Char :=
  match d.exponent with
  | .negSucc places => ['0', '.'] ++ List.replicate places '0' ++ d.digits
  | .ofNat places =>
    let whole := d.digits.take (places + 1)
    let zeros := List.replicate (places + 1 - d.digits.length) '0'
    match d.digits.drop (places + 1) with
    | [] => whole ++ zeros ++ if l.pointZero then ['.', '0'] else []
    | fraction => whole ++ ['.'] ++ fraction

/-- Digits with the point behind the first, and the exponent with its sign. -/
def Decimal.scientific (d : Decimal) : List Char :=
  let sign := if d.exponent < 0 then '-' else '+'
  let exponent := ['e', sign] ++ Nat.toDigits 10 d.exponent.natAbs
  match d.digits with
  | first :: second :: others => [first, '.', second] ++ others ++ exponent
  | digits => digits ++ exponent

/-- The text of a number in a layout. -/
def written (l : Layout) (x : Binary64) : List Char :=
  if x.isNaN then l.nan
  else if x.isInfinite then l.infinite x.isNegative
  else
    let d := x.shortest l.tie
    let sign := if x.isNegative then ['-'] else []
    sign ++ if l.positional d.exponent then l.point d else d.scientific

end Stencil.Binary64
