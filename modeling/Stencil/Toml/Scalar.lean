import Stencil.Text.Reading
import Stencil.Value.Content

/-!
# Numbers and dates in TOML

Integers are written in base ten with an optional sign, or in base 16, 8 or 2 without one, and have
to fit into 64 bits with a sign. Floats have a fraction, an exponent or both, and are rounded to
nearest. A single underscore may stand between two digits. A float above the greatest one is an
error, and one below the least one is infinite.

Dates and times are checked and kept as text: a capital `T` between date and time, a capital `Z`, at
most nine digits of a second and no zeros at their end.
-/

namespace Stencil.Toml

open Text (Reading startsWithDigit hexValue? numeral)

/-! ## Numbers -/

/-- Reads digits behind a first one, without the underscores between them. -/
def moreDigits (isDigit : Char → Bool) : List Char → Reading (List Char)
  | [] => .ok ([], [])
  | '_' :: c :: cs =>
    if isDigit c then (moreDigits isDigit cs).map fun (ds, rest) => (c :: ds, rest)
    else .error (c :: cs)
  | c :: cs =>
    if isDigit c then (moreDigits isDigit cs).map fun (ds, rest) => (c :: ds, rest)
    else if c = '_' then .error cs
    else .ok ([], c :: cs)

/-- Reads at least one digit. -/
def digits (isDigit : Char → Bool) : List Char → Reading (List Char)
  | c :: cs =>
    if isDigit c then (moreDigits isDigit cs).map fun (ds, rest) => (c :: ds, rest)
    else .error (c :: cs)
  | [] => .error []

/-- A sign, if there is one, and whether it is a minus. -/
def sign : List Char → Bool × List Char
  | '+' :: cs => (false, cs)
  | '-' :: cs => (true, cs)
  | cs => (false, cs)

def integer (negative : Bool) (n : Nat) (rest : List Char) : Reading Content :=
  let n : Int := if negative then -n else n
  if -Number.signedLimit ≤ n ∧ n < Number.signedLimit then .ok (.signed (Int64.ofInt n), rest)
  else .error rest

/-- Reads an integer behind the letter of its base. -/
def integerIn (base : Nat) (cs : List Char) : Reading Content :=
  match digits (fun c => (hexValue? c).any (· < base)) cs with
  | .error rest => .error rest
  | .ok (ds, rest) => integer false (numeral base ds) rest

/-- Reads what may follow the last digit of a float: the letter of an exponent, and the exponent. -/
def exponent : List Char → Reading Int
  | c :: cs =>
    if c = 'e' ∨ c = 'E' then
      let (negative, cs) := sign cs
      (digits Char.isDigit cs).map fun (ds, rest) =>
        let n : Int := numeral 10 ds
        (if negative then -n else n, rest)
    else .ok (0, c :: cs)
  | [] => .ok (0, [])

/-- Reads what may follow a whole part: the point and the digits behind it. -/
def fraction : List Char → Reading (List Char)
  | '.' :: cs => digits Char.isDigit cs
  | cs => .ok ([], cs)

/-- Reads the rest of a decimal number behind its whole part. -/
def decimalEnd (negative : Bool) (whole cs : List Char) : Reading Content :=
  match cs with
  | '.' :: _ | 'e' :: _ | 'E' :: _ =>
    match fraction cs with
    | .error rest => .error rest
    | .ok (places, cs) =>
      match exponent cs with
      | .error rest => .error rest
      | .ok (e, rest) =>
        let n := numeral 10 (whole ++ places)
        let x := Binary64.ofDecimal negative n (Binary64.digitCount n) (e - places.length)
        if x.isInfinite ∧ !negative then .error rest else .ok (.float x, rest)
  | rest => integer negative (numeral 10 whole) rest

/-- Reads a number behind its sign. -/
def decimal (negative : Bool) : List Char → Reading Content
  | 'i' :: 'n' :: 'f' :: cs => .ok (.float (.infinity negative), cs)
  | 'n' :: 'a' :: 'n' :: cs => .ok (.float (.nan negative), cs)
  | '0' :: cs => decimalEnd negative ['0'] cs
  | cs =>
    match digits Char.isDigit cs with
    | .error rest => .error rest
    | .ok (whole, cs) => decimalEnd negative whole cs

/-- Reads a number. -/
def number : List Char → Reading Content
  | '0' :: 'x' :: cs => integerIn 16 cs
  | '0' :: 'o' :: cs => integerIn 8 cs
  | '0' :: 'b' :: cs => integerIn 2 cs
  | cs => let (negative, cs) := sign cs; decimal negative cs

/-! ## Dates and times -/

/-- The number that the next two characters stand for, if they are digits. -/
def twoDigits? : List Char → Option (Nat × List Char)
  | a :: b :: rest => if a.isDigit ∧ b.isDigit then some (numeral 10 [a, b], rest) else none
  | _ => none

/-- Takes two digits that stand for a number between two others: the digits, the number and the
rest. -/
def field? (low high : Nat) (cs : List Char) : Option (List Char × Nat × List Char) := do
  let (n, rest) ← twoDigits? cs
  if low ≤ n ∧ n ≤ high then return (cs.take 2, n, rest) else none

def isLeapYear (year : Nat) : Bool := year % 4 = 0 && (year % 100 ≠ 0 || year % 400 = 0)

def daysIn (year month : Nat) : Nat :=
  if month = 2 then if isLeapYear year then 29 else 28
  else if month = 4 ∨ month = 6 ∨ month = 9 ∨ month = 11 then 30
  else 31

/-- Reads month and day behind a year and a dash. -/
def monthDay (year : Nat) (cs : List Char) : Reading (List Char) :=
  match field? 1 12 cs with
  | some (m, month, '-' :: rest) =>
    match field? 1 (daysIn year month) rest with
    | some (d, _, rest) => .ok (m ++ ['-'] ++ d, rest)
    | none => .error rest
  | _ => .error cs

/-- Reads a date, if there are a year and a dash. -/
def date? (cs : List Char) : Option (Reading (List Char)) :=
  let year := cs.take 4
  match cs.drop 4 with
  | '-' :: rest =>
    if year.length = 4 ∧ year.all Char.isDigit then
      some ((monthDay (numeral 10 year) rest).map fun (md, rest) => (year ++ ['-'] ++ md, rest))
    else none
  | _ => none

/-- The parts of a second as they are kept. -/
def secondParts (ds : List Char) : List Char :=
  match ((ds.take 9).reverse.dropWhile (· = '0')).reverse with
  | [] => []
  | kept => '.' :: kept

/-- Reads minutes, seconds and parts of a second behind an hour and a colon. -/
def minuteSecond (cs : List Char) : Reading (List Char) :=
  match field? 0 59 cs with
  | some (m, _, ':' :: rest) =>
    match field? 0 60 rest with
    | none => .error rest
    | some (s, _, rest) =>
      match rest with
      | '.' :: places =>
        if startsWithDigit places then
          let ds := places.takeWhile Char.isDigit
          .ok (m ++ [':'] ++ s ++ secondParts ds, places.dropWhile Char.isDigit)
        else .ok (m ++ [':'] ++ s, rest)
      | rest => .ok (m ++ [':'] ++ s, rest)
  | _ => .error cs

/-- Reads a time, if there are an hour and a colon. -/
def time? (cs : List Char) : Option (Reading (List Char)) :=
  match field? 0 23 cs with
  | some (h, _, ':' :: rest) =>
    some ((minuteSecond rest).map fun (ms, rest) => (h ++ [':'] ++ ms, rest))
  | _ => none

/-- Reads the offset of a time, if there is one. An offset of nothing has a plus. -/
def offset (cs : List Char) : Reading (List Char) :=
  match cs with
  | [] => .ok ([], [])
  | c :: rest =>
    if c = 'Z' ∨ c = 'z' then .ok (['Z'], rest)
    else if c = '+' ∨ c = '-' then
      match field? 0 23 rest with
      | some (h, hours, ':' :: rest) =>
        match field? 0 59 rest with
        | some (m, minutes, rest) =>
          let c := if hours = 0 ∧ minutes = 0 then '+' else c
          .ok ([c] ++ h ++ [':'] ++ m, rest)
        | none => .error rest
      | _ => .error rest
    else .ok ([], cs)

/-- Reads what may follow a date: a blank or a `T`, the time and its offset. -/
def dateEnd (date : List Char) (cs : List Char) : Reading (List Char) :=
  match cs with
  | [] => .ok (date, [])
  | c :: rest =>
    if c = 'T' ∨ c = 't' ∨ c = ' ' then
      match time? rest with
      | none => .ok (date, cs)
      | some (.error rest) => .error rest
      | some (.ok (t, rest)) => (offset rest).map fun (o, rest) => (date ++ ['T'] ++ t ++ o, rest)
    else .ok (date, cs)

/-- Reads a date, a time or both, if the text starts like one. -/
def dateTime? (cs : List Char) : Option (Reading (List Char)) :=
  match date? cs with
  | none => time? cs
  | some (.error rest) => some (.error rest)
  | some (.ok (date, rest)) => some (dateEnd date rest)

end Stencil.Toml
