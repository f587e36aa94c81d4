import Stencil.Text.Quoted
import Stencil.Value.Content

/-!
# The text of a value

A value is written into a template as its string form: a string as it is, nothing for null, and JSON
without blanks for arrays and dictionaries.
-/

namespace Stencil

/-! ## JSON -/

namespace Content

/-- A float in JSON has a fraction or an exponent, so that it reads back as a float; what JSON
cannot say is null. -/
def jsonLayout : Binary64.Layout where
  tie := .even
  positional exponent := -5 ≤ exponent ∧ exponent ≤ 15
  pointZero := true
  nan := ['n', 'u', 'l', 'l']
  infinite _ := ['n', 'u', 'l', 'l']

/-- How JSON spells a character of a string. -/
def jsonChar (c : Char) : List Char :=
  if c = '"' then ['\\', '"']
  else if c = '\\' then ['\\', '\\']
  else if c = '\x08' then ['\\', 'b']
  else if c = '\x0c' then ['\\', 'f']
  else if c = '\n' then ['\\', 'n']
  else if c = '\r' then ['\\', 'r']
  else if c = '\t' then ['\\', 't']
  else if c.toNat < 16 then ['\\', 'u', '0', '0', '0'] ++ Text.hexDigits c.toNat
  else if c.toNat < 32 then ['\\', 'u', '0', '0'] ++ Text.hexDigits c.toNat
  else [c]

def jsonString (s : String) : List Char := ['"'] ++ s.toList.flatMap jsonChar ++ ['"']

mutual

/-- The content as JSON without blanks. -/
def json : Content → List Char
  | unit => ['n', 'u', 'l', 'l']
  | bool true => ['t', 'r', 'u', 'e']
  | bool false => ['f', 'a', 'l', 's', 'e']
  | unsigned n => Number.integerText n.toNat
  | signed n => Number.integerText n.toInt
  | float x => x.written jsonLayout
  | string s => jsonString s
  | sequence items => ['['] ++ List.intercalate [','] (jsonItems items) ++ [']']
  | map entries => ['\x7b'] ++ List.intercalate [','] (jsonEntries entries) ++ ['\x7d']

def jsonItems : List Content → List (List Char)
  | [] => []
  | c :: cs => c.json :: jsonItems cs

def jsonEntries : List (String × Content) → List (List Char)
  | [] => []
  | (key, c) :: rest => (jsonString key ++ [':'] ++ c.json) :: jsonEntries rest

end

end Content

/-! ## String form -/

namespace Value

/-- What an action writes for the value, if JSON is written as `print` says. -/
def textBy (print : Content → List Char) : Value → String
  | null => ""
  | bool true => "true"
  | bool false => "false"
  | number n => String.ofList n.text
  | string s => s
  | v => String.ofList (print v.content)

/-- What an action writes for the value. -/
def text (v : Value) : String := v.textBy Content.json

end Value

end Stencil
