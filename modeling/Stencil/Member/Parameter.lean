import Stencil.Error
import Stencil.Value.Basic

/-!
# Parameters

A function that a template calls says what it takes by a `ParamType`. `ParamType.convert` turns the
value of the pipeline, or its absence, into an argument. A value that is missing is an error of
arity, and one that is there but does not fit an error of type. `option` takes a missing value and
null for none, and `rest` takes any number of values, of which a pipeline has at most one.

Results:
* `ofValue?_toValue`: an argument of any type, as a value again, converts back to itself.
-/

namespace Stencil

/-- The integer types, by their names. -/
inductive IntegerType where
  | u8 | u16 | u32 | u64 | usize
  | i8 | i16 | i32 | i64 | isize
deriving Repr, DecidableEq

namespace IntegerType

def all : List IntegerType := [u8, u16, u32, u64, usize, i8, i16, i32, i64, isize]

def name : IntegerType → String
  | u8 => "u8" | u16 => "u16" | u32 => "u32" | u64 => "u64" | usize => "usize"
  | i8 => "i8" | i16 => "i16" | i32 => "i32" | i64 => "i64" | isize => "isize"

def isSigned : IntegerType → Bool
  | u8 | u16 | u32 | u64 | usize => false
  | i8 | i16 | i32 | i64 | isize => true

def bits : IntegerType → Nat
  | u8 | i8 => 8
  | u16 | i16 => 16
  | u32 | i32 => 32
  | u64 | usize | i64 | isize => 64

/-- The number of integers of the type. -/
def size (t : IntegerType) : Nat := 1 <<< t.bits

/-- The least integer of the type. -/
def low (t : IntegerType) : Int := if t.isSigned then -(t.size / 2) else 0

/-- The greatest integer of the type. -/
def high (t : IntegerType) : Int := if t.isSigned then t.size / 2 - 1 else t.size - 1

/-- An integer of the type. -/
abbrev Carrier (t : IntegerType) : Type := { n : Int // t.low ≤ n ∧ n ≤ t.high }

def ofInt? (t : IntegerType) (n : Int) : Option t.Carrier :=
  if h : t.low ≤ n ∧ n ≤ t.high then some ⟨n, h⟩ else none

/-- Integers of unsigned types are unsigned numbers, and those of signed types signed ones. -/
def toNumber (t : IntegerType) (n : t.Carrier) : Number :=
  if t.isSigned then .signed (Int64.ofInt n.val) else .unsigned (UInt64.ofNat n.val.toNat)

theorem low_of_isSigned {t : IntegerType} (h : t.isSigned = true) :
    -Number.signedLimit ≤ t.low ∧ t.high < Number.signedLimit := by
  cases t <;> first | contradiction | decide

theorem low_of_not_isSigned {t : IntegerType} (h : ¬t.isSigned = true) :
    t.low = 0 ∧ t.high < UInt64.size := by
  cases t <;> first | contradiction | decide

theorem toInt?_toNumber (t : IntegerType) (n : t.Carrier) : (t.toNumber n).toInt? = some n.val := by
  obtain ⟨n, hlow, hhigh⟩ := n
  unfold toNumber
  split
  · rename_i h
    have := low_of_isSigned h
    show some (Int64.ofInt n).toInt = some n
    simp only [Number.signedLimit] at this
    rw [Int64.toInt_ofInt_of_le (by omega) (by omega)]
  · rename_i h
    have := low_of_not_isSigned h
    show some ((UInt64.ofNat n.toNat).toNat : Int) = some n
    rw [UInt64.toNat_ofNat_of_lt' (by omega),
      Int.toNat_of_nonneg (by omega)]

end IntegerType

/-- The types a value converts to by what it is. -/
inductive BaseType where
  /-- Any value. -/
  | value
  | bool
  | string
  /-- A string that is shared between those who hold it. -/
  | sharedString
  | number
  | float
  | dict
  | array
  | integer (t : IntegerType)
deriving Repr, DecidableEq

namespace BaseType

/-- How errors call the type. -/
def name : BaseType → String
  | value => "a value"
  | bool => "bool"
  | string => "String"
  | sharedString => "Arc<str>"
  | number => "Num"
  | float => "f64"
  | dict => "Arc<Dict>"
  | array => "Arc<Vec<Value>>"
  | integer t => t.name

/-- The arguments of the type. -/
def Carrier : BaseType → Type
  | value => Value
  | bool => Bool
  | string => String
  | sharedString => String
  | number => Number
  | float => Binary64
  | dict => Dict Value
  | array => List Value
  | integer t => t.Carrier

/-- The argument that a value stands for. Any number is a float, and any whole number that is in
range an integer, unless it is written as a float. -/
def ofValue? : (t : BaseType) → Value → Option t.Carrier
  | value, v => some v
  | bool, .bool b => some b
  | string, .string s => some s
  | sharedString, .string s => some s
  | number, .number n => some n
  | float, .number n => some n.toFloat
  | dict, .dict entries => some entries
  | array, .array items => some items
  | integer t, .number n => n.toInt?.bind t.ofInt?
  | _, _ => none

/-- An argument as a value again. -/
def toValue : (t : BaseType) → t.Carrier → Value
  | value, v => v
  | bool, b => .bool b
  | string, s => .string s
  | sharedString, s => .string s
  | number, n => .number n
  | float, x => .number (.float x)
  | dict, entries => .dict entries
  | array, items => .array items
  | integer t, n => .number (t.toNumber n)

theorem ofValue?_toValue : (t : BaseType) → (a : t.Carrier) → t.ofValue? (t.toValue a) = some a
  | value, _ => rfl
  | bool, _ => rfl
  | string, _ => rfl
  | sharedString, _ => rfl
  | number, _ => rfl
  | float, _ => rfl
  | dict, _ => rfl
  | array, _ => rfl
  | integer t, n => by
    show (t.toNumber n).toInt?.bind t.ofInt? = some n
    rw [t.toInt?_toNumber n]
    exact dif_pos n.property

end BaseType

/-- What a parameter takes. -/
inductive ParamType where
  | base (t : BaseType)
  /-- Nothing and null are none. -/
  | option (t : ParamType)
  /-- All values that are left. -/
  | rest (t : ParamType)
deriving Repr, DecidableEq

namespace ParamType

def Carrier : ParamType → Type
  | base t => t.Carrier
  | option t => Option t.Carrier
  | rest t => List t.Carrier

def missing (t : BaseType) : Error :=
  .make .arity "member requires an argument" [("expected", t.name)]

def wrongType (t : BaseType) (v : Value) : Error :=
  .make .type "argument has the wrong type" [("expected", t.name), ("found", v.kind)]

/-- The argument that a value, or its absence, stands for (`from_arg`). -/
def convert : (t : ParamType) → Option Value → Except Error t.Carrier
  | base t, none => .error (missing t)
  | base t, some v =>
    match t.ofValue? v with
    | some a => .ok a
    | none => .error (wrongType t v)
  | option _, none => .ok none
  | option _, some .null => .ok none
  | option t, some v => (convert t (some v)).map some
  | rest _, none => .ok []
  | rest t, some v => (convert t (some v)).map fun a => [a]

end ParamType

end Stencil
