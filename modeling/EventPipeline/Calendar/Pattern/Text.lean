import EventPipeline.Calendar.Moment
import EventPipeline.Calendar.Pattern
import EventPipeline.Decimal.Digits
/-!
# Moments as text

How a moment is written under a pattern. Every part but one has a text for every
moment: the lenient offset is a form for reading only, and a pattern that holds it
writes nothing (`Pattern.isSome_chars?`).
-/
namespace EventPipeline.Calendar

/-- An integer filled up to `width` characters, a sign included; zeros go behind the sign. -/
def filled (padding : Padding) (width : Nat) (plus : Bool) (v : Int) : List Char :=
  let sign := if v < 0 then ['-'] else if plus then ['+'] else []
  let ds := Decimal.natChars v.natAbs
  let missing := width - (sign.length + ds.length)
  match padding with
  | .zero => sign ++ List.replicate missing '0' ++ ds
  | .space => List.replicate missing ' ' ++ sign ++ ds
  | .none => sign ++ ds

/-- A number of two digits. Only its last eight bits are written, and its tens in one
character, which is a digit below 100. -/
def twoDigits (padding : Padding) (v : Int) : List Char :=
  let n := (v % 256).toNat
  let ones := Decimal.digitChar (n % 10)
  match n / 10, padding with
  | 0, .none => [ones]
  | 0, .space => [' ', ones]
  | tens, _ => [Decimal.digitChar tens, ones]

/-- A year in four digits, or with a sign and at least four digits. -/
def yearChars (padding : Padding) (y : Int) : List Char :=
  if 0 ≤ y ∧ y ≤ 9999 then filled padding 4 false y else filled padding 5 true y

/-- The English names of the months. -/
def monthNames : List String :=
  ["January", "February", "March", "April", "May", "June", "July", "August", "September",
   "October", "November", "December"]

/-- The English names of the days of the week. -/
def weekdayNames : List String :=
  ["Monday", "Tuesday", "Wednesday", "Thursday", "Friday", "Saturday", "Sunday"]

/-- The first `count` of the nine digits of a fraction of a second. -/
def fractionDigits (count fraction : Nat) : List Char :=
  (Decimal.padded '0' 9 fraction).take count

/-- A fraction with its point, in three, six or nine digits, and nothing if it is zero. -/
def fractionChars (fraction : Nat) : List Char :=
  if fraction = 0 then []
  else if fraction % 1000000 = 0 then '.' :: fractionDigits 3 fraction
  else if fraction % 1000 = 0 then '.' :: fractionDigits 6 fraction
  else '.' :: fractionDigits 9 fraction

/-- The text of a number. -/
def Numeric.chars (n : Numeric) (p : Padding) (m : Moment) : List Char :=
  let weekFrom (weekday : Nat) : Int := (m.date.dayOfYear + 7 - weekday) / 7
  match n with
  | .year => yearChars p m.date.year
  | .century => twoDigits p (m.date.year / 100)
  | .yearOfCentury => twoDigits p (m.date.year % 100)
  | .weekYear => yearChars p (Date.week m.day).1
  | .weekYearOfCentury => twoDigits p ((Date.week m.day).1 % 100)
  | .quarter => [Decimal.digitChar ((m.date.month - 1) / 3 + 1)]
  | .month => twoDigits p m.date.month
  | .day => twoDigits p m.date.day
  | .weekFromSunday => twoDigits p (weekFrom (Date.weekdayFromSunday m.day))
  | .weekFromMonday => twoDigits p (weekFrom (Date.weekday m.day))
  | .week => twoDigits p (Date.week m.day).2
  | .weekdayFromSunday => [Decimal.digitChar (Date.weekdayFromSunday m.day)]
  | .weekdayFromMonday => [Decimal.digitChar (Date.weekday m.day + 1)]
  | .dayOfYear => filled p 3 false (m.date.dayOfYear + 1)
  | .hour => twoDigits p m.hour
  | .hour12 => twoDigits p m.hour12
  | .minute => twoDigits p m.minute
  | .second => twoDigits p m.second
  | .nanosecond => filled p 9 false m.fraction
  | .timestamp => filled p 9 false m.seconds

/-- Date and time joined by `T`, with a fraction and the offset from UTC. -/
def rfc3339Chars (m : Moment) : List Char :=
  yearChars .zero m.date.year ++ '-' :: twoDigits .zero m.date.month ++
    '-' :: twoDigits .zero m.date.day ++ 'T' :: twoDigits .zero m.hour ++
    ':' :: twoDigits .zero m.minute ++ ':' :: twoDigits .zero m.second ++
    fractionChars m.fraction ++ "+00:00".toList

/-- The text of a part with a form of its own, if it has one. -/
def Form.chars (m : Moment) : Form → Option (List Char)
  | .shortMonth => some ((monthNames.getD (m.date.month - 1) "").toList.take 3)
  | .longMonth => some (monthNames.getD (m.date.month - 1) "").toList
  | .shortWeekday => some ((weekdayNames.getD (Date.weekday m.day) "").toList.take 3)
  | .longWeekday => some (weekdayNames.getD (Date.weekday m.day) "").toList
  | .lowerHalfDay => some (if m.hour < 12 then ['a', 'm'] else ['p', 'm'])
  | .upperHalfDay => some (if m.hour < 12 then ['A', 'M'] else ['P', 'M'])
  | .fraction => some (fractionChars m.fraction)
  | .dottedDigits count => some ('.' :: fractionDigits count m.fraction)
  | .digits count => some (fractionDigits count m.fraction)
  | .zone => some "UTC".toList
  | .offset => some "+0000".toList
  | .offsetColon => some "+00:00".toList
  | .offsetSeconds => some "+00:00:00".toList
  | .offsetHours => some "+00".toList
  | .offsetLenient => none
  | .rfc3339 => some (rfc3339Chars m)

/-- The text of a part, if it has one. -/
def Item.chars (m : Moment) : Item → Option (List Char)
  | .literal c => some [c]
  | .numeric n p => some (n.chars p m)
  | .form f => f.chars m

namespace Pattern

/-- The text of a moment under a pattern, if every part has one. -/
def chars? (m : Moment) : Pattern → Option (List Char)
  | [] => some []
  | i :: rest =>
    match i.chars m, chars? m rest with
    | some cs, some more => some (cs ++ more)
    | _, _ => none

theorem isSome_itemChars (m : Moment) (i : Item) :
    (i.chars m).isSome ↔ i ≠ .form .offsetLenient := by
  cases i with
  | literal c => simp [Item.chars]
  | numeric n p => simp [Item.chars]
  | form f => cases f <;> simp [Item.chars, Form.chars]

/-- A pattern writes every moment unless it holds the lenient offset. -/
theorem isSome_chars? (m : Moment) (p : Pattern) :
    (chars? m p).isSome ↔ .form .offsetLenient ∉ p := by
  induction p with
  | nil => simp [chars?]
  | cons i rest ih =>
    have hi : ¬Item.form .offsetLenient = i ↔ (i.chars m).isSome :=
      ne_comm.trans (isSome_itemChars m i).symm
    rw [List.mem_cons, not_or, ← ih, hi, chars?]
    cases i.chars m <;> cases chars? m rest <;> simp

end Pattern

end EventPipeline.Calendar
