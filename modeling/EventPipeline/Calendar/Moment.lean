import EventPipeline.Calendar.Date
/-!
# Moments

A moment is a number of nanoseconds since the start of 1970 in UTC, where every
day has 86400 seconds. The calendar covers a fixed range of years.
-/
namespace EventPipeline.Calendar

/-- A point in time. -/
structure Moment where
  nanoseconds : Int
deriving DecidableEq

namespace Moment

/-- The moment `s` seconds after the epoch. -/
def ofSeconds (s : Int) : Moment := ⟨s * 1000000000⟩

/-- The moment `ms` milliseconds after the epoch. -/
def ofMilliseconds (ms : Int) : Moment := ⟨ms * 1000000⟩

/-- The whole seconds since the epoch, counted downwards before it. -/
def seconds (m : Moment) : Int := m.nanoseconds / 1000000000

/-- The nanoseconds since the last whole second. -/
def fraction (m : Moment) : Nat := (m.nanoseconds % 1000000000).toNat

/-- The number of the day. -/
def day (m : Moment) : Int := m.seconds / 86400

/-- The seconds since the start of the day. -/
def secondOfDay (m : Moment) : Nat := (m.seconds % 86400).toNat

/-- The date. -/
def date (m : Moment) : Date := .ofNumber m.day

/-- The hour of the day. -/
def hour (m : Moment) : Nat := m.secondOfDay / 3600

/-- The hour of the half day, where noon and midnight are twelve. -/
def hour12 (m : Moment) : Nat := if m.hour % 12 = 0 then 12 else m.hour % 12

/-- The minute of the hour. -/
def minute (m : Moment) : Nat := m.secondOfDay / 60 % 60

/-- The second of the minute. -/
def second (m : Moment) : Nat := m.secondOfDay % 60

/-- Whether the calendar covers the moment. -/
def Covered (m : Moment) : Prop := -262143 ≤ m.date.year ∧ m.date.year ≤ 262142

instance (m : Moment) : Decidable m.Covered := inferInstanceAs (Decidable (_ ∧ _))

end Moment

end EventPipeline.Calendar
