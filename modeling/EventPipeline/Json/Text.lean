import EventPipeline.Decimal.Digits
import EventPipeline.Event.Basic
/-!
# JSON text

How events and their parts are written: an object with every member in order, no
white space between tokens, numbers in base 10, and in strings an escape for the
quote, the backslash and each control character and for nothing else. See the
specification, 4.4 and 6.
-/
namespace EventPipeline.Json

/-- A hexadecimal digit. -/
def hexChar (n : Nat) : Char :=
  if n < 10 then Char.ofNat ('0'.toNat + n) else Char.ofNat ('a'.toNat + (n - 10))

/-- A character inside a string. -/
def stringChar (c : Char) : List Char :=
  if c = '"' then ['\\', '"']
  else if c = '\\' then ['\\', '\\']
  else if c = '\x08' then ['\\', 'b']
  else if c = '\x0c' then ['\\', 'f']
  else if c = '\n' then ['\\', 'n']
  else if c = '\r' then ['\\', 'r']
  else if c = '\t' then ['\\', 't']
  else if c.toNat < 0x20 then
    ['\\', 'u', '0', '0', hexChar (c.toNat / 16), hexChar (c.toNat % 16)]
  else [c]

/-- A text as a string. -/
def string (s : String) : List Char := '"' :: s.toList.flatMap stringChar ++ ['"']

/-- The members of an object, already written, with commas between them. -/
def commaSeparated : List (List Char) → List Char
  | [] => []
  | [m] => m
  | m :: ms => m ++ ',' :: commaSeparated ms

/-- An object with the given keys and values. -/
def object (members : List (String × List Char)) : List Char :=
  '{' :: commaSeparated (members.map (fun m => string m.1 ++ ':' :: m.2)) ++ ['}']

/-- Properties as an object of strings, in key order. -/
def properties (d : Properties) : List Char :=
  object (d.entries.map (fun e => (e.1, string e.2)))

/-- A member's value. -/
def value : (k : Kind) → k.Value → List Char
  | .text, s => string s
  | .int32, i => Decimal.intChars i.toInt
  | .int64, i => Decimal.intChars i.toInt
  | .properties, d => properties d

/-- An event. -/
def event (e : Event) : List Char :=
  object (Member.all.map (fun m => (m.name, value m.kind (e.value m))))

end EventPipeline.Json
