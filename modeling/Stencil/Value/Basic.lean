import Stencil.Number.Basic
import Stencil.Value.Dict

/-!
# Values

What flows through the pipeline of an action, and what data is made of.

Results:
* `equal_comm`: values are compared both ways alike.
-/

namespace Stencil

inductive Value where
  | null
  | bool (b : Bool)
  | number (n : Number)
  | string (s : String)
  | array (items : List Value)
  | dict (entries : List (String × Value))

namespace Value

/-- The name of the kind of value. -/
def kind : Value → String
  | null => "null"
  | bool _ => "boolean"
  | number _ => "number"
  | string _ => "string"
  | array _ => "array"
  | dict _ => "dict"

mutual

/-- Equal by value: numbers by what they are worth, arrays and dictionaries part by part. -/
def equal : Value → Value → Bool
  | null, null => true
  | bool a, bool b => a == b
  | number a, number b => a.equal b
  | string a, string b => a == b
  | array as, array bs => equalAll as bs
  | dict as, dict bs => equalEntries as bs
  | _, _ => false

def equalAll : List Value → List Value → Bool
  | [], [] => true
  | a :: as, b :: bs => equal a b && equalAll as bs
  | _, _ => false

def equalEntries : List (String × Value) → List (String × Value) → Bool
  | [], [] => true
  | (j, a) :: as, (k, b) :: bs => j == k && equal a b && equalEntries as bs
  | _, _ => false

end

mutual

theorem equal_comm : (a b : Value) → a.equal b = b.equal a
  | null, b => by cases b <;> rfl
  | bool a, b => by cases b <;> simp [equal, Bool.beq_comm]
  | number a, b => by cases b <;> simp [equal, Number.equal_comm]
  | string a, b => by cases b <;> simp [equal, Bool.beq_comm]
  | array as, b => by cases b <;> simp [equal, equalAll_comm as]
  | dict as, b => by cases b <;> simp [equal, equalEntries_comm as]

theorem equalAll_comm : (as bs : List Value) → equalAll as bs = equalAll bs as
  | [], [] => rfl
  | [], _ :: _ => rfl
  | _ :: _, [] => rfl
  | a :: as, b :: bs => by simp [equalAll, equal_comm a b, equalAll_comm as bs]

theorem equalEntries_comm :
    (as bs : List (String × Value)) → equalEntries as bs = equalEntries bs as
  | [], [] => rfl
  | [], _ :: _ => rfl
  | _ :: _, [] => rfl
  | (j, a) :: as, (k, b) :: bs => by
    simp [equalEntries, equal_comm a b, equalEntries_comm as bs, Bool.beq_comm (a := j)]

end

end Value

end Stencil
