/-!
# Dates

The Gregorian calendar, extended to all years by its leap-year rule. Days are
numbered from 1970-01-01, which has number 0. `Date.ofNumber` finds the date with
a given number: it is a valid one (`Date.valid_ofNumber`) and its number is the
one given (`Date.number_ofNumber`).
-/
namespace EventPipeline.Calendar

/-- Whether `y` has a 29th of February: every fourth year has, but of the full centuries only
every fourth. -/
def isLeap (y : Int) : Bool := y % 4 = 0 && (y % 100 ≠ 0 || y % 400 = 0)

/-- The number of days of a year. -/
def yearLength (y : Int) : Nat := if isLeap y then 366 else 365

/-- The number of days of each month, for a year with or without a leap day. -/
def monthLengths (leap : Bool) : List Nat :=
  [31, if leap then 29 else 28, 31, 30, 31, 30, 31, 31, 30, 31, 30, 31]

/-- A day: its year, its month from 1 and its day of the month from 1. -/
structure Date where
  year : Int
  month : Nat
  day : Nat
deriving DecidableEq

/-- The days from the first of January of year 1 to that of year `y`. -/
def daysBefore (y : Int) : Int :=
  365 * (y - 1) + (y - 1) / 4 - (y - 1) / 100 + (y - 1) / 400

/-- A year is as much longer than 365 days as `daysBefore` grows. -/
theorem daysBefore_succ (y : Int) : daysBefore (y + 1) = daysBefore y + yearLength y := by
  unfold daysBefore yearLength isLeap
  split
  next h => simp at h; omega
  next h => simp at h; omega

/-- The days from the first of January of year 1 to 1970-01-01. -/
def epoch : Int := daysBefore 1970

/-- The days of all months with the given lengths. -/
def totalDays (lengths : List Nat) : Nat := lengths.foldr (· + ·) 0

/-- The days of the months before month `m`. -/
def daysBeforeMonth (leap : Bool) (m : Nat) : Nat := totalDays ((monthLengths leap).take (m - 1))

namespace Date

/-- The days of the year before a date. -/
def dayOfYear (d : Date) : Nat := daysBeforeMonth (isLeap d.year) d.month + (d.day - 1)

/-- The number of a date: the days from 1970-01-01. -/
def number (d : Date) : Int := daysBefore d.year + d.dayOfYear - epoch

/-- Whether there is such a date. -/
def Valid (d : Date) : Prop :=
  1 ≤ d.day ∧ 1 ≤ d.month ∧ ∃ n, (monthLengths (isLeap d.year))[d.month - 1]? = some n ∧ d.day ≤ n

end Date

/-- Month and day of the month, given the day's number within the months of the given lengths,
the first of which is month `m`. -/
def monthAndDay (m : Nat) : List Nat → Nat → Nat × Nat
  | [], n => (m, n + 1)
  | length :: rest, n => if n < length then (m, n + 1) else monthAndDay (m + 1) rest (n - length)

/-- The year that holds the day `n` days after the first of January of year 1, and the number
of the day within it. Of the cycles of 400, 100, 4 and 1 years the last in each may be a day
longer than the others. -/
def yearAndDay (n : Int) : Int × Nat :=
  let n400 := n / 146097
  let r := (n % 146097).toNat
  let n100 := min 3 (r / 36524)
  let r := r - n100 * 36524
  let n4 := r / 1461
  let r := r % 1461
  let n1 := min 3 (r / 365)
  (400 * n400 + (100 * n100 + 4 * n4 + n1 : Nat) + 1, r - n1 * 365)

namespace Date

/-- The date with the given number. -/
def ofNumber (n : Int) : Date :=
  let (year, k) := yearAndDay (n + epoch)
  let (month, day) := monthAndDay 1 (monthLengths (isLeap year)) k
  ⟨year, month, day⟩

end Date

/-! ## Finding a date by its number -/

theorem yearAndDay_spec (n : Int) :
    daysBefore (yearAndDay n).1 + (yearAndDay n).2 = n ∧
      (yearAndDay n).2 < yearLength (yearAndDay n).1 := by
  unfold yearAndDay
  simp only
  generalize hq : n / 146097 = q
  generalize hr : (n % 146097).toNat = r
  have hn : n = 146097 * q + r := by omega
  have hr' : r < 146097 := by omega
  clear hr hq
  generalize hc : min 3 (r / 36524) = c
  generalize hs : r - c * 36524 = s
  have hc' : c ≤ 3 := by omega
  have hs' : s + c * 36524 = r := by omega
  have hcs : s < 36524 ∨ (s = 36524 ∧ c = 3) := by omega
  clear hc hs
  generalize hf : s / 1461 = f
  generalize ht : s % 1461 = t
  have hft : s = 1461 * f + t := by omega
  have hf' : f ≤ 24 := by omega
  have ht' : t < 1461 := by omega
  clear hf ht
  generalize hy : min 3 (t / 365) = y
  generalize hd : t - y * 365 = d
  have hy' : y ≤ 3 := by omega
  have hd' : d + y * 365 = t := by omega
  have hyd : d < 365 ∨ (d = 365 ∧ y = 3) := by omega
  clear hy hd
  unfold daysBefore yearLength isLeap
  have e : 400 * q + ((100 * c + 4 * f + y : Nat) : Int) + 1 - 1
      = 400 * q + (100 * c + 4 * f + y) := by omega
  rw [e]
  have e4 : (400 * q + (100 * c + 4 * f + y) : Int) / 4 = 100 * q + 25 * c + f := by omega
  have e100 : (400 * q + (100 * c + 4 * f + y) : Int) / 100 = 4 * q + c := by omega
  have e400 : (400 * q + (100 * c + 4 * f + y) : Int) / 400 = q := by omega
  constructor
  · rw [e4, e100, e400]; omega
  · split
    next h => omega
    next h => simp at h; omega

theorem monthAndDay_spec (m : Nat) (ls : List Nat) (n : Nat) (h : n < totalDays ls) :
    m ≤ (monthAndDay m ls n).1 ∧ 1 ≤ (monthAndDay m ls n).2 ∧
      totalDays (ls.take ((monthAndDay m ls n).1 - m)) + ((monthAndDay m ls n).2 - 1) = n ∧
      ∃ l, ls[(monthAndDay m ls n).1 - m]? = some l ∧ (monthAndDay m ls n).2 ≤ l := by
  induction ls generalizing m n with
  | nil => simp [totalDays] at h
  | cons l ls ih =>
    rw [monthAndDay]
    split
    next hn => exact ⟨Nat.le_refl _, by simp, by simp [totalDays], l, by simp, hn⟩
    next hn =>
      obtain ⟨h1, h2, h3, k, hk, h4⟩ := ih (m + 1) (n - l) (by simp [totalDays] at h ⊢; omega)
      obtain ⟨j, hj⟩ : ∃ j, (monthAndDay (m + 1) ls (n - l)).1 = m + 1 + j :=
        ⟨_, (Nat.add_sub_cancel' h1).symm⟩
      rw [hj] at h3 hk ⊢
      have e1 : m + 1 + j - (m + 1) = j := by omega
      have e2 : m + 1 + j - m = j + 1 := by omega
      rw [e1] at h3 hk
      refine ⟨by omega, h2, ?_, k, by rw [e2]; simpa using hk, h4⟩
      rw [e2, List.take_succ_cons, totalDays, List.foldr_cons, ← totalDays]
      omega

theorem totalDays_monthLengths (y : Int) :
    totalDays (monthLengths (isLeap y)) = yearLength y := by
  unfold yearLength
  cases isLeap y <;> rfl

namespace Date

theorem valid_ofNumber (n : Int) : (ofNumber n).Valid := by
  have hy := (yearAndDay_spec (n + epoch)).2
  rw [← totalDays_monthLengths] at hy
  obtain ⟨h1, h2, -, l, hl, h4⟩ := monthAndDay_spec 1 _ _ hy
  exact ⟨h2, h1, l, hl, h4⟩

@[simp] theorem number_ofNumber (n : Int) : (ofNumber n).number = n := by
  have ⟨hs, hy⟩ := yearAndDay_spec (n + epoch)
  rw [← totalDays_monthLengths] at hy
  have h3 := (monthAndDay_spec 1 _ _ hy).2.2.1
  simp only [number, dayOfYear, daysBeforeMonth, ofNumber]
  rw [h3]
  omega

/-! ## Weeks -/

/-- The days from the last Monday to day number `n`; 1970-01-01 was a Thursday. -/
def weekday (n : Int) : Nat := ((n + 3) % 7).toNat

/-- The days from the last Sunday to day number `n`. -/
def weekdayFromSunday (n : Int) : Nat := ((n + 4) % 7).toNat

/-- The year and number of the week of day number `n`, where weeks start on Monday and belong
to the year of their Thursday. -/
def week (n : Int) : Int × Nat :=
  let thursday := ofNumber (n - weekday n + 3)
  (thursday.year, thursday.dayOfYear / 7 + 1)

end Date

end EventPipeline.Calendar
