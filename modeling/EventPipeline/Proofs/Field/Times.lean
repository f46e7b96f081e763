import EventPipeline.Field
import EventPipeline.Proofs.Calendar.Counting
/-!
# Columns of dates and times

The three derived columns show the date, and the time of the day, that are met by counting
seconds from the start of 1970 (`Derived.chars_eq`): numbers of two digits, years from 0 to
9999 in four, others with a sign. The parts of a text after the year have one length, so the
text of a time gives its second back (`DateTime.timestamp_inj`).
-/
namespace EventPipeline

namespace Decimal

/-- The last `width` digits of `n`, with zeros in front if it has fewer. -/
def lastDigits : Nat → Nat → List Char
  | 0, _ => []
  | width + 1, n => lastDigits width (n / 10) ++ [digitChar (n % 10)]

theorem lastDigits_zero (width : Nat) : lastDigits width 0 = List.replicate width '0' := by
  induction width with
  | zero => rfl
  | succ width ih =>
    rw [lastDigits, Nat.zero_div, ih, List.replicate_succ']
    rfl

/-- A number that has room is filled up to its last digits. -/
theorem padded_succ {width n : Nat} (h : n < Nat.pow 10 (width + 1)) :
    padded '0' (width + 1) n = lastDigits (width + 1) n := by
  induction width generalizing n with
  | zero =>
    have hlt : n < 10 := h
    have hmod : n % 10 = n := Nat.mod_eq_of_lt hlt
    rw [padded, natChars, digits, if_pos hlt, lastDigits, hmod]
    rfl
  | succ width ih =>
    by_cases hlt : n < 10
    · have hmod : n % 10 = n := Nat.mod_eq_of_lt hlt
      have hdiv : n / 10 = 0 := Nat.div_eq_of_lt hlt
      rw [padded, natChars, digits, if_pos hlt, lastDigits, hdiv, hmod, lastDigits_zero]
      rfl
    · have hpow : Nat.pow 10 (width + 1 + 1) = Nat.pow 10 (width + 1) * 10 := rfl
      have hlast : natChars n = natChars (n / 10) ++ [digitChar (n % 10)] := by
        rw [natChars, digits, if_neg hlt, List.map_append]
        rfl
      rw [lastDigits, ← ih (n := n / 10) (by omega), padded, padded, hlast, List.length_append,
        List.append_assoc]
      simp

/-- Zeros in front do not hide a number. -/
theorem padded_inj {width m n : Nat} (h : padded '0' width m = padded '0' width n) : m = n := by
  have hzeros : ∀ k n, ofDigits (List.replicate k 0 ++ digits n) = n := by
    intro k n
    induction k with
    | zero => exact ofDigits_digits n
    | succ k ih => exact ih
  have hdigits : ∀ n, padded '0' width n =
      (List.replicate (width - (natChars n).length) 0 ++ digits n).map digitChar := by
    intro n
    rw [List.map_append, List.map_replicate]
    rfl
  have hlt : ∀ k n, ∀ d ∈ List.replicate k 0 ++ digits n, d < 10 := by
    intro k n d hd
    rcases List.mem_append.1 hd with hd | hd
    · rw [(List.mem_replicate.1 hd).2]
      decide
    · exact lt_ten_of_mem_digits hd
  rw [hdigits, hdigits] at h
  have heq := map_digitChar_inj (hlt _ _) (hlt _ _) h
  rw [← hzeros _ m, heq, hzeros]

theorem lastDigits_inj {width m n : Nat} (hm : m < Nat.pow 10 (width + 1))
    (hn : n < Nat.pow 10 (width + 1)) (h : lastDigits (width + 1) m = lastDigits (width + 1) n) :
    m = n := by
  rw [← padded_succ hm, ← padded_succ hn] at h
  exact padded_inj h

/-- The text of a number has no sign. -/
theorem isDigit_of_mem_padded {width n : Nat} {c : Char} (h : c ∈ padded '0' width n) :
    c.isDigit := by
  rcases List.mem_append.1 h with h | h
  · rw [(List.mem_replicate.1 h).2]
    decide
  · exact isDigit_of_mem_natChars h

end Decimal

namespace Calendar

open Decimal (lastDigits padded)

/-- A year: from 0 to 9999 in four digits, and else with its sign and in four digits or more. -/
def yearText (y : Int) : List Char :=
  if 0 ≤ y ∧ y ≤ 9999 then lastDigits 4 y.toNat
  else (if y < 0 then '-' else '+') :: padded '0' 4 y.natAbs

theorem yearChars_eq (y : Int) : yearChars .zero y = yearText y := by
  have hroom : ∀ n, 5 - (1 + n) = 4 - n := fun n => by omega
  rw [yearChars, yearText]
  by_cases hy : 0 ≤ y ∧ y ≤ 9999
  · have hlt : y.toNat < Nat.pow 10 4 := by
      have hpow : Nat.pow 10 4 = 10000 := rfl
      omega
    have hnat : y.natAbs = y.toNat := by omega
    have hsign : ¬y < 0 := by omega
    rw [if_pos hy, if_pos hy, ← Decimal.padded_succ hlt]
    simp [filled, padded, hsign, hnat]
  · rw [if_neg hy, if_neg hy]
    by_cases hsign : y < 0 <;> simp [filled, padded, hsign, hroom]

/-- A year is told by its text. -/
theorem yearText_inj {y z : Int} (h : yearText y = yearText z) : y = z := by
  have hpadded : ∀ y : Int, 0 ≤ y ∧ y ≤ 9999 → lastDigits 4 y.toNat = padded '0' 4 y.toNat := by
    intro y hy
    have hlt : y.toNat < 10000 := by omega
    exact (Decimal.padded_succ hlt).symm
  -- digits in front on one side and a sign on the other
  have hmixed : ∀ (n m : Nat) (c : Char), ¬c.isDigit → padded '0' 4 n ≠ c :: padded '0' 4 m := by
    intro n m c hc heq
    exact hc (Decimal.isDigit_of_mem_padded (heq ▸ List.mem_cons_self))
  have hsign : ∀ y : Int, ¬(if y < 0 then '-' else '+').isDigit := by
    intro y
    split <;> decide
  rw [yearText, yearText] at h
  by_cases hy : 0 ≤ y ∧ y ≤ 9999
  · rw [if_pos hy, hpadded y hy] at h
    by_cases hz : 0 ≤ z ∧ z ≤ 9999
    · rw [if_pos hz, hpadded z hz] at h
      have hnat := Decimal.padded_inj h
      omega
    · rw [if_neg hz] at h
      exact absurd h (hmixed _ _ _ (hsign z))
  · rw [if_neg hy] at h
    by_cases hz : 0 ≤ z ∧ z ≤ 9999
    · rw [if_pos hz, hpadded z hz] at h
      exact absurd h.symm (hmixed _ _ _ (hsign y))
    · rw [if_neg hz] at h
      obtain ⟨hfirst, hrest⟩ := List.cons.inj h
      have hnat := Decimal.padded_inj hrest
      by_cases hy' : y < 0 <;> by_cases hz' : z < 0 <;> simp [hy', hz'] at hfirst <;> omega

theorem twoDigits_eq {n : Nat} (h : n < 100) : twoDigits .zero n = lastDigits 2 n := by
  have hlow : ((n : Int) % 256).toNat = n := by omega
  have htens : n / 10 % 10 = n / 10 := by omega
  have hzero : ∀ v, twoDigits .zero v = [Decimal.digitChar ((v % 256).toNat / 10),
      Decimal.digitChar ((v % 256).toNat % 10)] := by
    intro v
    unfold twoDigits
    dsimp only
    split
    next heq => cases heq
    next heq => cases heq
    next => rfl
  rw [hzero, hlow]
  simp only [lastDigits, htens, List.nil_append, List.singleton_append]

namespace DateTime

/-- The date, with something between its parts. -/
def dateText (sep : List Char) (t : DateTime) : List Char :=
  yearText t.date.year ++ sep ++ lastDigits 2 t.date.month ++ sep ++ lastDigits 2 t.date.day

/-- The time of the day. -/
def timeText (t : DateTime) : List Char :=
  lastDigits 2 t.hour ++ ':' :: lastDigits 2 t.minute ++ ':' :: lastDigits 2 t.second

/-- Date and time. -/
def timestamp (t : DateTime) : List Char := t.dateText ['-'] ++ 'T' :: t.timeText

/-- Date and time are told by their text: behind the year it has one length. -/
theorem timestamp_inj {t u : DateTime} (ht : t.Valid) (hu : u.Valid)
    (h : t.timestamp = u.timestamp) : t = u := by
  have htwo : ∀ {m n : Nat}, m < 100 → n < 100 → lastDigits (1 + 1) m = lastDigits (1 + 1) n →
      m = n := fun hm hn => Decimal.lastDigits_inj hm hn
  have hlength : ∀ n, (lastDigits 2 n).length = 2 := fun n => rfl
  simp only [timestamp, dateText, timeText, List.append_assoc] at h
  obtain ⟨hyear, h⟩ := List.append_inj' h (by simp [hlength])
  obtain ⟨-, h⟩ := List.append_inj h rfl
  obtain ⟨hmonth, h⟩ := List.append_inj h rfl
  obtain ⟨-, h⟩ := List.append_inj h rfl
  obtain ⟨hday, h⟩ := List.append_inj h rfl
  obtain ⟨hhour, h⟩ := List.append_inj (List.cons.inj h).2 rfl
  obtain ⟨hminute, h⟩ := List.append_inj (List.cons.inj h).2 rfl
  have hsecond := (List.cons.inj h).2
  have hdate : t.date = u.date := by
    have htmonth := ht.date.month_le
    have humonth := hu.date.month_le
    have htday := ht.date.day_le
    have huday := hu.date.day_le
    have hyears := yearText_inj hyear
    have hmonths := htwo (by omega) (by omega) hmonth
    have hdays := htwo (by omega) (by omega) hday
    rw [show t.date = ⟨t.date.year, t.date.month, t.date.day⟩ from rfl, hyears, hmonths, hdays]
  have hhours := htwo (Nat.lt_trans ht.hour (by decide)) (Nat.lt_trans hu.hour (by decide)) hhour
  have hsixty : ∀ {n : Nat}, n < 60 → n < 100 := fun h => Nat.lt_trans h (by decide)
  have hminutes := htwo (hsixty ht.minute) (hsixty hu.minute) hminute
  have hseconds := htwo (hsixty ht.second) (hsixty hu.second) hsecond
  rw [show t = ⟨t.date, t.hour, t.minute, t.second⟩ from rfl, hdate, hhours, hminutes, hseconds]

end DateTime

end Calendar

namespace Derived

open Calendar

/-- The seconds from the start of 1970 that a text is for: the milliseconds of its member without
those of the last second, so cut off towards 1970. -/
def seconds (e : Event) : Derived → Int
  | .eventTime => (e.value .eventTime : Int64).toInt.tdiv 1000
  | .loggedTime | .loggedDate => (e.value .loggedTime : Int64).toInt.tdiv 1000

/-- What is shown of a date and time. -/
def text (t : DateTime) : Derived → List Char
  | .eventTime | .loggedTime => t.timestamp
  | .loggedDate => t.dateText []

/-- The pattern of a text is filled in with the parts of the date and time. -/
theorem chars?_pattern (d : Derived) (s : Int) :
    d.pattern.chars? (Moment.ofSeconds s) = some (d.text (DateTime.ofSeconds s)) := by
  have hvalid := DateTime.valid_ofSeconds s
  have hmonth : (Moment.ofSeconds s).date.month < 100 :=
    Nat.lt_of_le_of_lt hvalid.date.month_le (by decide)
  have hday : (Moment.ofSeconds s).date.day < 100 :=
    Nat.lt_of_le_of_lt hvalid.date.day_le (by decide)
  have hhour : (Moment.ofSeconds s).hour < 100 := Nat.lt_trans hvalid.hour (by decide)
  have hminute : (Moment.ofSeconds s).minute < 100 := Nat.lt_trans hvalid.minute (by decide)
  have hsecond : (Moment.ofSeconds s).second < 100 := Nat.lt_trans hvalid.second (by decide)
  cases d <;>
    simp [pattern, text, Pattern.dashedDate, Pattern.time, Pattern.hourMinute, Pattern.zeros,
      Pattern.chars?, Item.chars, Numeric.chars, yearChars_eq, twoDigits_eq hmonth,
      twoDigits_eq hday, twoDigits_eq hhour, twoDigits_eq hminute, twoDigits_eq hsecond,
      DateTime.timestamp, DateTime.dateText, DateTime.timeText, DateTime.ofSeconds]

/-- A text is that of the date and time at its second, or empty beyond the calendar. -/
theorem chars_eq (e : Event) (d : Derived) :
    d.chars e = if firstSecond ≤ d.seconds e ∧ d.seconds e ≤ lastSecond
      then d.text (DateTime.ofSeconds (d.seconds e)) else [] := by
  have hseconds : (d.milliseconds e).toInt.tdiv 1000 = d.seconds e := by cases d <;> rfl
  rw [chars, hseconds]
  simp only [covered_iff, chars?_pattern, Option.getD_some]

end Derived

namespace Field

open Calendar

/-- The three derived columns show the one date and time that is met by counting their seconds from
the start of 1970, if the calendar covers it, and else nothing. Timestamps are the same just in case
their seconds are. -/
theorem derived_texts (e : Event) (d : Derived) :
    (ofName? "event_time_str" = some (.derived .eventTime) ∧
      ofName? "logged_time_str" = some (.derived .loggedTime) ∧
      ofName? "logged_date" = some (.derived .loggedDate)) ∧
    (firstSecond ≤ d.seconds e ∧ d.seconds e ≤ lastSecond →
      ∃ t : DateTime, t.Valid ∧ t.Elapsed (d.seconds e) ∧
        (∀ u : DateTime, u.Valid → u.Elapsed (d.seconds e) → u = t) ∧
        (derived d).chars e = d.text t) ∧
    (d.seconds e < firstSecond ∨ lastSecond < d.seconds e → (derived d).chars e = []) ∧
    ∀ (e' : Event) (d' : Derived), d ≠ .loggedDate → d' ≠ .loggedDate →
      firstSecond ≤ d.seconds e ∧ d.seconds e ≤ lastSecond →
      firstSecond ≤ d'.seconds e' ∧ d'.seconds e' ≤ lastSecond →
      ((derived d).chars e = (derived d').chars e' ↔ d.seconds e = d'.seconds e') := by
  refine ⟨⟨by decide +kernel, by decide +kernel, by decide +kernel⟩, fun hin => ?_, fun hout => ?_,
    ?_⟩
  · have hvalid := DateTime.valid_ofSeconds (d.seconds e)
    refine ⟨.ofSeconds (d.seconds e), hvalid, (DateTime.elapsed_iff hvalid).2 rfl,
      fun u hu helapsed => (DateTime.elapsed_iff hu).1 helapsed, ?_⟩
    exact (d.chars_eq e).trans (if_pos hin)
  · refine (d.chars_eq e).trans (if_neg fun hin => ?_)
    omega
  · intro e' d' hd hd' hin hin'
    have htext : ∀ {d : Derived}, d ≠ .loggedDate → ∀ t, d.text t = t.timestamp := by
      intro d hd t
      cases d with
      | loggedDate => exact absurd rfl hd
      | _ => rfl
    have hshown : ∀ {e : Event} {d : Derived}, d ≠ .loggedDate →
        firstSecond ≤ d.seconds e ∧ d.seconds e ≤ lastSecond →
        (derived d).chars e = (DateTime.ofSeconds (d.seconds e)).timestamp := by
      intro e d hd hin
      exact ((d.chars_eq e).trans (if_pos hin)).trans (htext hd _)
    rw [hshown hd hin, hshown hd' hin']
    constructor
    · intro h
      exact DateTime.ofSeconds_inj
        (DateTime.timestamp_inj (DateTime.valid_ofSeconds _) (DateTime.valid_ofSeconds _) h)
    · intro h
      rw [h]

/-- An event with a time before 1970, which is not on a full second, and one on a leap day. -/
def leapDayEvent : Event := (Event.default.set .eventTime (-1999)).set .loggedTime 951868799999

/-- An event with the last time there is, which is beyond the calendar. -/
def lastTimeEvent : Event := Event.default.set .loggedTime Int64.maxValue

theorem derived_texts_leap_day :
    firstSecond ≤ Derived.eventTime.seconds leapDayEvent ∧
      Derived.eventTime.seconds leapDayEvent ≤ lastSecond ∧
      (derived .eventTime).chars leapDayEvent = "1969-12-31T23:59:59".toList ∧
      firstSecond ≤ Derived.loggedDate.seconds leapDayEvent ∧
      Derived.loggedDate.seconds leapDayEvent ≤ lastSecond ∧
      (derived .loggedDate).chars leapDayEvent = "20000229".toList ∧
      lastSecond < Derived.loggedTime.seconds lastTimeEvent ∧
      (derived .loggedTime).chars lastTimeEvent = [] ∧
      (derived .loggedTime).chars leapDayEvent ≠ (derived .eventTime).chars leapDayEvent := by
  have hbefore : firstSecond ≤ Derived.eventTime.seconds leapDayEvent ∧
      Derived.eventTime.seconds leapDayEvent ≤ lastSecond := by decide +kernel
  have hleap : firstSecond ≤ Derived.loggedDate.seconds leapDayEvent ∧
      Derived.loggedDate.seconds leapDayEvent ≤ lastSecond := by decide +kernel
  have hbeyond : lastSecond < Derived.loggedTime.seconds lastTimeEvent := by decide +kernel
  have hlate : (⟨⟨1969, 12, 31⟩, 23, 59, 59⟩ : DateTime).Valid :=
    ⟨⟨by decide, by decide, 31, rfl, by decide⟩, by decide, by decide, by decide⟩
  have hday : (⟨⟨2000, 2, 29⟩, 23, 59, 59⟩ : DateTime).Valid :=
    ⟨⟨by decide, by decide, 29, rfl, by decide⟩, by decide, by decide, by decide⟩
  obtain ⟨t, -, -, honly, htext⟩ := (derived_texts leapDayEvent .eventTime).2.1 hbefore
  obtain ⟨u, -, -, honly', htext'⟩ := (derived_texts leapDayEvent .loggedDate).2.1 hleap
  have ht := honly _ hlate ⟨-1, .inr ⟨1, rfl, by decide⟩, by decide +kernel⟩
  have hu := honly' _ hday ⟨11016, (Date.counted_iff hday.date).2 (by decide), by decide +kernel⟩
  refine ⟨hbefore.1, hbefore.2, ?_, hleap.1, hleap.2, ?_, hbeyond, ?_, ?_⟩
  · rw [htext, ← ht]
    decide
  · rw [htext', ← hu]
    decide
  · exact (derived_texts lastTimeEvent .loggedTime).2.2.1 (.inr hbeyond)
  · have hiff := (derived_texts leapDayEvent .loggedTime).2.2.2 leapDayEvent .eventTime
      (by decide) (by decide) hleap hbefore
    exact fun heq => absurd (hiff.1 heq) (by decide +kernel)

end Field

end EventPipeline
