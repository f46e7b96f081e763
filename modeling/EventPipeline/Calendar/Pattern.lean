/-!
# Patterns for moments

A pattern says how a moment is written: text that stands for itself, numbers with
a way of filling them up, and names and fixed forms. It is read from a text in
which `%` introduces each part that is not literal, with a short form for some
frequent sequences of parts. Suffixes of files are given so (specification, 4.6).
-/
namespace EventPipeline.Calendar

/-- How a number is filled up to the usual width. -/
inductive Padding
  | zero | space | none
deriving DecidableEq

/-- A number taken from a moment. -/
inductive Numeric
  | year | century | yearOfCentury | weekYear | weekYearOfCentury | quarter | month | day
  | weekFromSunday | weekFromMonday | week | weekdayFromSunday | weekdayFromMonday | dayOfYear
  | hour | hour12 | minute | second | nanosecond | timestamp
deriving DecidableEq

/-- A part of a moment with a form of its own. Fractions of a second have as many digits as
they need in steps of three, or a given number of them; offsets from UTC have minutes and
seconds as far as their form asks for. -/
inductive Form
  | shortMonth | longMonth | shortWeekday | longWeekday | lowerHalfDay | upperHalfDay
  | fraction | dottedDigits (count : Nat) | digits (count : Nat)
  | zone | offset | offsetColon | offsetSeconds | offsetHours | offsetLenient
  | rfc3339
deriving DecidableEq

/-- One part of a pattern. -/
inductive Item
  | literal (c : Char)
  | numeric (n : Numeric) (padding : Padding)
  | form (f : Form)
deriving DecidableEq

/-- A pattern: its parts in order. -/
abbrev Pattern := List Item

namespace Pattern

/-- A number filled up with zeros. -/
def zeros (n : Numeric) : Item := .numeric n .zero

/-- A number filled up with spaces. -/
def spaces (n : Numeric) : Item := .numeric n .space

/-- A number not filled up. -/
def plain (n : Numeric) : Item := .numeric n .none

/-- `%H:%M` -/
def hourMinute : Pattern := [zeros .hour, .literal ':', zeros .minute]

/-- `%H:%M:%S` -/
def time : Pattern := hourMinute ++ [.literal ':', zeros .second]

/-- `%m/%d/%y` -/
def slashedDate : Pattern :=
  [zeros .month, .literal '/', zeros .day, .literal '/', zeros .yearOfCentury]

/-- `%Y-%m-%d` -/
def dashedDate : Pattern :=
  [zeros .year, .literal '-', zeros .month, .literal '-', zeros .day]

/-- The parts that a single letter stands for. -/
def ofLetter? : Char → Option Pattern
  | 'A' => some [.form .longWeekday]
  | 'B' => some [.form .longMonth]
  | 'C' => some [zeros .century]
  | 'D' | 'x' => some slashedDate
  | 'F' => some dashedDate
  | 'G' => some [zeros .weekYear]
  | 'H' => some [zeros .hour]
  | 'I' => some [zeros .hour12]
  | 'M' => some [zeros .minute]
  | 'P' => some [.form .lowerHalfDay]
  | 'R' => some hourMinute
  | 'S' => some [zeros .second]
  | 'T' | 'X' => some time
  | 'U' => some [zeros .weekFromSunday]
  | 'V' => some [zeros .week]
  | 'W' => some [zeros .weekFromMonday]
  | 'Y' => some [zeros .year]
  | 'Z' => some [.form .zone]
  | 'a' => some [.form .shortWeekday]
  | 'b' | 'h' => some [.form .shortMonth]
  | 'c' => some ([.form .shortWeekday, .literal ' ', .form .shortMonth, .literal ' ', spaces .day,
      .literal ' '] ++ time ++ [.literal ' ', zeros .year])
  | 'd' => some [zeros .day]
  | 'e' => some [spaces .day]
  | 'f' => some [zeros .nanosecond]
  | 'g' => some [zeros .weekYearOfCentury]
  | 'j' => some [zeros .dayOfYear]
  | 'k' => some [spaces .hour]
  | 'l' => some [spaces .hour12]
  | 'm' => some [zeros .month]
  | 'n' => some [.literal '\n']
  | 'p' => some [.form .upperHalfDay]
  | 'q' => some [plain .quarter]
  | 'r' => some [zeros .hour12, .literal ':', zeros .minute, .literal ':', zeros .second,
      .literal ' ', .form .upperHalfDay]
  | 's' => some [plain .timestamp]
  | 't' => some [.literal '\t']
  | 'u' => some [plain .weekdayFromMonday]
  | 'v' => some [spaces .day, .literal '-', .form .shortMonth, .literal '-', zeros .year]
  | 'w' => some [plain .weekdayFromSunday]
  | 'y' => some [zeros .yearOfCentury]
  | 'z' => some [.form .offset]
  | '+' => some [.form .rfc3339]
  | '%' => some [.literal '%']
  | _ => none

/-- The padding that a character in front of the letter asks for. -/
def paddingOf? : Char → Option Padding
  | '-' => some .none
  | '0' => some .zero
  | '_' => some .space
  | _ => none

/-- The parts a single letter stands for, with another padding; only a single number has one. -/
def repadded? (p : Padding) (c : Char) : Option Pattern :=
  match ofLetter? c with
  | some [.numeric n _] => some [.numeric n p]
  | _ => none

/-- The pattern written in a text, unless some `%` in it introduces nothing known. -/
def read? : List Char → Option Pattern
  | [] => some []
  | '%' :: '#' :: 'z' :: rest => (.form .offsetLenient :: ·) <$> read? rest
  | '%' :: ':' :: 'z' :: rest => (.form .offsetColon :: ·) <$> read? rest
  | '%' :: ':' :: ':' :: 'z' :: rest => (.form .offsetSeconds :: ·) <$> read? rest
  | '%' :: ':' :: ':' :: ':' :: 'z' :: rest => (.form .offsetHours :: ·) <$> read? rest
  | '%' :: '.' :: 'f' :: rest => (.form .fraction :: ·) <$> read? rest
  | '%' :: '.' :: '3' :: 'f' :: rest => (.form (.dottedDigits 3) :: ·) <$> read? rest
  | '%' :: '.' :: '6' :: 'f' :: rest => (.form (.dottedDigits 6) :: ·) <$> read? rest
  | '%' :: '.' :: '9' :: 'f' :: rest => (.form (.dottedDigits 9) :: ·) <$> read? rest
  | '%' :: '3' :: 'f' :: rest => (.form (.digits 3) :: ·) <$> read? rest
  | '%' :: '6' :: 'f' :: rest => (.form (.digits 6) :: ·) <$> read? rest
  | '%' :: '9' :: 'f' :: rest => (.form (.digits 9) :: ·) <$> read? rest
  | ['%'] => none
  | '%' :: c :: rest =>
    match paddingOf? c, rest with
    | some p, d :: rest => (· ++ ·) <$> repadded? p d <*> read? rest
    | some _, [] => none
    | none, rest => (· ++ ·) <$> ofLetter? c <*> read? rest
  | c :: rest => (.literal c :: ·) <$> read? rest

end Pattern

end EventPipeline.Calendar
