import EventPipeline.Calendar.Moment
/-!
# Days counted one by one

`Date.number` is a formula. Here it is tied to the calendar itself: the day after a date
(`Date.next`) is found by the lengths of the months and the rule for leap years, and its number
is one more (`number_next`). No two dates have one number (`Date.number_inj`), so a date has
the number `n` just in case it is met `n` days from 1970-01-01, counting forwards or
backwards (`counted_iff`), and every number of seconds is one date and one time of the day
(`DateTime.elapsed_iff`).
-/
namespace EventPipeline.Calendar

/-! ## Days within a year -/

theorem totalDays_take_succ {lengths : List Nat} {i l : Nat} (h : lengths[i]? = some l) :
    totalDays (lengths.take (i + 1)) = totalDays (lengths.take i) + l := by
  induction lengths generalizing i with
  | nil => simp at h
  | cons first lengths ih =>
    cases i with
    | zero =>
      have hfirst : first = l := by simpa using h
      simp [totalDays, hfirst]
    | succ i =>
      have hrest := ih (i := i) (by simpa using h)
      simp only [totalDays, List.take_succ_cons, List.foldr_cons] at hrest ⊢
      omega

theorem totalDays_take_mono (lengths : List Nat) {i j : Nat} (h : i ≤ j) :
    totalDays (lengths.take i) ≤ totalDays (lengths.take j) := by
  induction lengths generalizing i j with
  | nil => simp
  | cons first lengths ih =>
    cases i with
    | zero => simp [totalDays]
    | succ i =>
      obtain ⟨j, rfl⟩ : ∃ k, j = k + 1 := ⟨j - 1, by omega⟩
      have hrest := ih (i := i) (j := j) (by omega)
      simp only [totalDays, List.take_succ_cons, List.foldr_cons] at hrest ⊢
      omega

theorem daysBefore_mono {y z : Int} (h : y ≤ z) : daysBefore y ≤ daysBefore z := by
  unfold daysBefore
  omega

namespace Date

variable {d e : Date}

theorem Valid.dayOfYear_lt (h : d.Valid) : d.dayOfYear < yearLength d.year := by
  obtain ⟨hday, -, n, hn, hle⟩ := h
  have hyear := totalDays_monthLengths d.year
  have hthrough := totalDays_take_succ hn
  have htotal := totalDays_take_mono (monthLengths (isLeap d.year))
    (i := d.month - 1 + 1) (j := (monthLengths (isLeap d.year)).length)
    (List.getElem?_eq_some_iff.1 hn).1
  rw [List.take_length] at htotal
  rw [dayOfYear, daysBeforeMonth]
  omega

theorem Valid.dayOfYear_lt_of_month_lt (hd : d.Valid) (hyear : d.year = e.year)
    (h : d.month < e.month) : d.dayOfYear < e.dayOfYear := by
  obtain ⟨hday, hmonth, n, hn, hle⟩ := hd
  have hthrough := totalDays_take_succ hn
  have hbetween := totalDays_take_mono (monthLengths (isLeap d.year))
    (i := d.month - 1 + 1) (j := e.month - 1) (by omega)
  simp only [dayOfYear, daysBeforeMonth, ← hyear]
  omega

/-- A date is told by its number. -/
theorem number_inj (hd : d.Valid) (he : e.Valid) (h : d.number = e.number) : d = e := by
  have hyearOf : ∀ {a b : Date}, a.Valid → a.year < b.year → a.number < b.number := by
    intro a b ha hlt
    have hday := ha.dayOfYear_lt
    have hnext := daysBefore_succ a.year
    have hmono := daysBefore_mono (y := a.year + 1) (z := b.year) (by omega)
    simp only [number]
    omega
  have hyear : d.year = e.year := by
    rcases Int.lt_trichotomy d.year e.year with hlt | heq | hgt
    · exact absurd h (Int.ne_of_lt (hyearOf hd hlt))
    · exact heq
    · exact absurd h (Int.ne_of_gt (hyearOf he hgt))
  have hdayOfYear : d.dayOfYear = e.dayOfYear := by
    simp only [number, hyear] at h
    omega
  have hmonth : d.month = e.month := by
    rcases Nat.lt_trichotomy d.month e.month with hlt | heq | hgt
    · exact absurd hdayOfYear (Nat.ne_of_lt (hd.dayOfYear_lt_of_month_lt hyear hlt))
    · exact heq
    · exact absurd hdayOfYear (Nat.ne_of_gt (he.dayOfYear_lt_of_month_lt hyear.symm hgt))
  have hday : d.day = e.day := by
    have hdpos := hd.1
    have hepos := he.1
    simp only [dayOfYear, hyear, hmonth] at hdayOfYear
    omega
  cases d
  cases e
  simp_all

/-- A date lies in the year `y` or later just in case its number is not below that of the year's
first day. -/
theorem le_year_iff (h : d.Valid) (y : Int) : y ≤ d.year ↔ daysBefore y - epoch ≤ d.number := by
  have hday := h.dayOfYear_lt
  have hnext := daysBefore_succ d.year
  rw [number]
  constructor
  · intro hle
    have hmono := daysBefore_mono hle
    omega
  · intro hle
    refine Int.not_lt.1 fun hlt => ?_
    have hmono := daysBefore_mono (y := d.year + 1) (z := y) (by omega)
    omega

/-! ## The day after -/

/-- The number of days of a date's month. -/
def monthLength (d : Date) : Nat := (monthLengths (isLeap d.year)).getD (d.month - 1) 0

/-- The day after: the next one of its month, or the first of the next month or year. -/
def next (d : Date) : Date :=
  if d.day < d.monthLength then ⟨d.year, d.month, d.day + 1⟩
  else if d.month < 12 then ⟨d.year, d.month + 1, 1⟩
  else ⟨d.year + 1, 1, 1⟩

theorem Valid.month_le (h : d.Valid) : d.month ≤ 12 := by
  obtain ⟨-, -, n, hn, -⟩ := h
  have hlength := (List.getElem?_eq_some_iff.1 hn).1
  simp only [monthLengths, List.length_cons, List.length_nil] at hlength
  omega

theorem Valid.monthLength (h : d.Valid) :
    (monthLengths (isLeap d.year))[d.month - 1]? = some d.monthLength ∧ d.day ≤ d.monthLength := by
  obtain ⟨-, -, n, hn, hle⟩ := h
  have hlength : d.monthLength = n := by
    rw [Date.monthLength, List.getD_eq_getElem?_getD, hn]
    rfl
  exact ⟨hlength ▸ hn, hlength ▸ hle⟩

theorem Valid.day_le (h : d.Valid) : d.day ≤ 31 := by
  obtain ⟨-, -, n, hn, hle⟩ := h
  have hmax : ∀ leap, ∀ n ∈ monthLengths leap, n ≤ 31 := by decide
  exact Nat.le_trans hle (hmax _ n (List.mem_of_getElem? hn))

theorem Valid.next (h : d.Valid) : d.next.Valid := by
  obtain ⟨hlength, -⟩ := h.monthLength
  have hmonth := h.month_le
  rw [Date.next]
  split
  next hday => exact ⟨Nat.succ_pos _, h.2.1, _, hlength, hday⟩
  next hday =>
    split
    next hlt =>
      have hin : d.month < (monthLengths (isLeap d.year)).length := by
        simpa [monthLengths] using hlt
      refine ⟨Nat.le_refl 1, Nat.succ_pos _, _, List.getElem?_eq_getElem hin, ?_⟩
      have hpos : ∀ leap, ∀ n ∈ monthLengths leap, 1 ≤ n := by decide
      exact hpos _ _ (List.getElem_mem hin)
    next hlt => exact ⟨Nat.le_refl 1, Nat.le_refl 1, 31, rfl, Nat.le_of_ble_eq_true rfl⟩

theorem number_next (h : d.Valid) : d.next.number = d.number + 1 := by
  obtain ⟨hlength, hle⟩ := h.monthLength
  have hpos := h.1
  have hmonth := h.2.1
  have hmax := h.month_le
  have hthrough := totalDays_take_succ hlength
  rw [Date.next]
  split
  next hday =>
    simp only [number, dayOfYear]
    omega
  next hday =>
    split
    next hlt =>
      have hindex : d.month + 1 - 1 = d.month - 1 + 1 := by omega
      simp only [number, dayOfYear, daysBeforeMonth, hindex]
      omega
    next hlt =>
      have hyear := daysBefore_succ d.year
      have htotal := totalDays_monthLengths d.year
      have hlast : d.month - 1 + 1 = (monthLengths (isLeap d.year)).length := by
        simp only [monthLengths, List.length_cons, List.length_nil]
        omega
      rw [hlast, List.take_length] at hthrough
      simp only [number, dayOfYear, daysBeforeMonth, Nat.sub_self, List.take_zero] at hthrough ⊢
      simp only [totalDays, List.foldr_nil] at hthrough htotal ⊢
      omega

/-- The day `n` days after `d`. -/
def later (d : Date) : Nat → Date
  | 0 => d
  | n + 1 => (d.later n).next

theorem later_spec (h : d.Valid) (n : Nat) :
    (d.later n).Valid ∧ (d.later n).number = d.number + n := by
  induction n with
  | zero => exact ⟨h, (Int.add_zero _).symm⟩
  | succ n ih =>
    refine ⟨ih.1.next, ?_⟩
    rw [later, number_next ih.1, ih.2]
    omega

/-- The first of January of 1970. -/
def first : Date := ⟨1970, 1, 1⟩

/-- Counted one by one there are `n` days from the first of January of 1970 to `d`, or `-n` days
from `d` to it. -/
def Counted (d : Date) (n : Int) : Prop :=
  (∃ k : Nat, n = k ∧ first.later k = d) ∨ ∃ k : Nat, n = -k ∧ d.later k = first

/-- The number of a date is what is counted. -/
theorem counted_iff (h : d.Valid) {n : Int} : d.Counted n ↔ d.number = n := by
  have hfirst : first.Valid := ⟨Nat.le_refl 1, Nat.le_refl 1, 31, rfl, by decide⟩
  have hzero : first.number = 0 := by decide
  constructor
  · rintro (⟨k, rfl, rfl⟩ | ⟨k, rfl, hk⟩)
    · rw [(later_spec hfirst k).2, hzero, Int.zero_add]
    · have hlater := (later_spec h k).2
      rw [hk, hzero] at hlater
      omega
  · rintro rfl
    by_cases hn : 0 ≤ d.number
    · have hlater := later_spec hfirst d.number.toNat
      exact .inl ⟨d.number.toNat, by omega, number_inj hlater.1 h (by omega)⟩
    · have hlater := later_spec h (-d.number).toNat
      exact .inr ⟨(-d.number).toNat, by omega, number_inj hlater.1 hfirst (by omega)⟩

end Date

/-! ## Date and time -/

/-- A date and a time of the day. -/
structure DateTime where
  date : Date
  hour : Nat
  minute : Nat
  second : Nat

namespace DateTime

/-- Whether there is such a date and such a time of the day. -/
structure Valid (t : DateTime) : Prop where
  date : t.date.Valid
  hour : t.hour < 24
  minute : t.minute < 60
  second : t.second < 60

/-- The date and time are `s` seconds from the start of 1970, or `-s` seconds before it: a day has
86400 seconds, an hour 3600 and a minute 60. -/
def Elapsed (t : DateTime) (s : Int) : Prop :=
  ∃ n, t.date.Counted n ∧ s = 86400 * n + (3600 * t.hour + 60 * t.minute + t.second : Nat)

/-- The date and time `s` seconds from the start of 1970. -/
def ofSeconds (s : Int) : DateTime :=
  let m := Moment.ofSeconds s
  ⟨m.date, m.hour, m.minute, m.second⟩

theorem seconds_ofSeconds (s : Int) : (Moment.ofSeconds s).seconds = s := by
  show s * 1000000000 / 1000000000 = s
  omega

theorem valid_ofSeconds (s : Int) : (ofSeconds s).Valid := by
  refine ⟨Date.valid_ofNumber _, ?_, ?_, ?_⟩
  · simp only [ofSeconds, Moment.hour, Moment.secondOfDay]
    omega
  · exact Nat.mod_lt _ (by decide)
  · exact Nat.mod_lt _ (by decide)

/-- There is one date and time for each number of seconds. -/
theorem elapsed_iff {t : DateTime} {s : Int} (h : t.Valid) :
    t.Elapsed s ↔ t = ofSeconds s := by
  have hseconds := seconds_ofSeconds s
  constructor
  · rintro ⟨n, hn, hs⟩
    have hhour : t.hour < 24 := h.hour
    have hminute : t.minute < 60 := h.minute
    have hsecond : t.second < 60 := h.second
    have hday : (Moment.ofSeconds s).day = n := by
      rw [Moment.day, hseconds]
      omega
    have hnumber : t.date.number = (Date.ofNumber n).number := by
      rw [Date.number_ofNumber, (Date.counted_iff h.date).1 hn]
    have hrest : (Moment.ofSeconds s).secondOfDay =
        3600 * t.hour + 60 * t.minute + t.second := by
      rw [Moment.secondOfDay, hseconds]
      omega
    have hdate : t.date = Date.ofNumber n := Date.number_inj h.date (Date.valid_ofNumber n) hnumber
    have htime : t = ⟨t.date, t.hour, t.minute, t.second⟩ := rfl
    rw [htime, ofSeconds]
    simp only [Moment.date, Moment.hour, Moment.minute, Moment.second, hday, hrest, hdate,
      mk.injEq, true_and]
    omega
  · rintro rfl
    refine ⟨(Moment.ofSeconds s).day, (Date.counted_iff h.date).2 (Date.number_ofNumber _), ?_⟩
    simp only [ofSeconds, Moment.day, Moment.hour, Moment.minute, Moment.second, Moment.secondOfDay,
      hseconds]
    omega

/-- Seconds are told by their date and time. -/
theorem ofSeconds_inj {s s' : Int} (h : ofSeconds s = ofSeconds s') : s = s' := by
  have hvalid := valid_ofSeconds s
  obtain ⟨n, hn, hs⟩ := (elapsed_iff hvalid).2 rfl
  obtain ⟨n', hn', hs'⟩ := (elapsed_iff hvalid).2 h
  have hnumber := (Date.counted_iff hvalid.date).1 hn
  have hnumber' := (Date.counted_iff hvalid.date).1 hn'
  omega

end DateTime

/-! ## The range of the calendar -/

/-- The first second that the calendar covers: the start of the year -262143. -/
def firstSecond : Int := 86400 * Date.number ⟨-262143, 1, 1⟩

/-- The last second that the calendar covers: the end of the year 262142. -/
def lastSecond : Int := 86400 * Date.number ⟨262142, 12, 31⟩ + 86399

theorem covered_iff (s : Int) :
    (Moment.ofSeconds s).Covered ↔ firstSecond ≤ s ∧ s ≤ lastSecond := by
  have hvalid := Date.valid_ofNumber (Moment.ofSeconds s).day
  have hlow := Date.le_year_iff hvalid (-262143)
  have hhigh := Date.le_year_iff hvalid 262143
  have hday : (Moment.ofSeconds s).day = s / 86400 := by
    rw [Moment.day, DateTime.seconds_ofSeconds]
  have hfirst : firstSecond = 86400 * (daysBefore (-262143) - epoch) := by decide
  have hlast : lastSecond + 1 = 86400 * (daysBefore 262143 - epoch) := by decide
  rw [Date.number_ofNumber, hday] at hlow hhigh
  rw [Moment.Covered, Moment.date, hday]
  omega

example : firstSecond = -8334601228800 ∧ lastSecond = 8210266876799 := by decide

end EventPipeline.Calendar
