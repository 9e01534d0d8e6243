import Btos.Lib.Units
import Btos.Lib.Word
import Mathlib.Tactic.IntervalCases

/-!
# Dates and milliseconds

`kernel/rtc/convert.cpp`: milliseconds since the start of the year 2000 to a date and a time of day, and back.

* `datetime2epoch`, `epoch2datetime` — **the code**.  One direction adds up the months of a common year and
  corrects for a leap day behind February, the other one subtracts the months of the year at hand;
* `epoch_roundTrip` — **both directions**: every 64-bit count gives a valid date, which gives the count back up
  to a second, and a valid date is given back if its count has 64 bits.
-/

namespace Btos.Kernel.Rtc

open Lib.Units Lib.Word List Option

/-! ### The code -/

structure DateTime where
  day : ℕ
  month : ℕ
  year : ℕ
  hour : ℕ
  minute : ℕ
  second : ℕ
  deriving DecidableEq, Repr

def epochYear : ℕ := 2000

def secondsPerMinute : ℕ := 60

def secondsPerHour : ℕ := secondsPerMinute * 60

def secondsPerDay : ℕ := secondsPerHour * 24

/-- `secondsPerMonth`, from the month 0 on. -/
def secondsPerMonth : List ℕ :=
  [0, 31 * secondsPerDay, 28 * secondsPerDay, 31 * secondsPerDay, 30 * secondsPerDay,
    31 * secondsPerDay, 30 * secondsPerDay, 31 * secondsPerDay, 31 * secondsPerDay,
    30 * secondsPerDay, 31 * secondsPerDay, 30 * secondsPerDay, 31 * secondsPerDay]

def isLeapYear (year : ℕ) : Bool := year % 4 == 0 && (year % 100 != 0 || year % 400 == 0)

def secondsInYear (year : ℕ) : ℕ :=
  if isLeapYear year then 366 * secondsPerDay else 365 * secondsPerDay

/-- `seconds_in_month`, for a month in the table. -/
def secondsInMonth (month year : ℕ) : ℕ :=
  if month == 2 && isLeapYear year then secondsPerMonth.getD month 0 + secondsPerDay
  else secondsPerMonth.getD month 0

/-- The months of a year, as far as the table goes. -/
def monthLengths (year : ℕ) : List ℕ :=
  (List.range secondsPerMonth.length).map fun month => secondsInMonth month year

/-- The sum in `datetime2epoch`, where `days` days of the month are over. -/
def secondsOf (days : ℕ) (dt : DateTime) : ℕ :=
  dt.second + dt.minute * secondsPerMinute + dt.hour * secondsPerHour + days * secondsPerDay +
    (secondsPerMonth.take dt.month).sum + total secondsInYear epochYear (dt.year - epochYear) +
    if isLeapYear dt.year && dt.month > 2 then secondsPerDay else 0

/-- **`datetime2epoch`**. -/
def datetime2epoch (dt : DateTime) : ℕ := secondsOf (sub64 dt.day 1) dt * 1000 % 2 ^ 64

theorem secondsInYear_pos (year : ℕ) : 0 < secondsInYear year := by
  unfold secondsInYear
  split <;> decide

/-- **`epoch2datetime`**.  The casts to `unsigned` change nothing, since years and months have fewer than
`2 ^ 32` seconds.  The result is `none` if the loop over the months runs off the table. -/
def epoch2datetime (ep : ℕ) : Option DateTime :=
  let years := whole secondsInYear secondsInYear_pos epochYear (ep / 1000)
  (scan (monthLengths years.1) 0 years.2).map fun months =>
    let days := whole (fun _ => secondsPerDay) (fun _ => by decide) 1 months.2
    let hours := whole (fun _ => secondsPerHour) (fun _ => by decide) 0 days.2
    let minutes := whole (fun _ => secondsPerMinute) (fun _ => by decide) 0 hours.2
    ⟨days.1, months.1, years.1, hours.1, minutes.1, minutes.2⟩

/-! ### The calendar -/

def Leap (year : ℕ) : Prop := 4 ∣ year ∧ (100 ∣ year → 400 ∣ year)

instance decidableLeap (year : ℕ) : Decidable (Leap year) := inferInstanceAs (Decidable (_ ∧ _))

def daysInMonth (month year : ℕ) : ℕ :=
  if month = 2 then if Leap year then 29 else 28
  else if month = 4 ∨ month = 6 ∨ month = 9 ∨ month = 11 then 30 else 31

/-- **A date of the calendar** from 2000 on, with a time of day. -/
structure DateTime.Valid (dt : DateTime) : Prop where
  year_ge : 2000 ≤ dt.year
  year_lt : dt.year < 2 ^ 31
  month_ge : 1 ≤ dt.month
  month_le : dt.month ≤ 12
  day_ge : 1 ≤ dt.day
  day_le : dt.day ≤ daysInMonth dt.month dt.year
  hour_lt : dt.hour < 24
  minute_lt : dt.minute < 60
  second_lt : dt.second < 60

/-! ### Months -/

theorem isLeapYear_eq (year : ℕ) : isLeapYear year = decide (Leap year) := by
  rw [Bool.eq_iff_iff, decide_eq_true_iff]
  simp only [isLeapYear, Leap, Bool.and_eq_true, Bool.or_eq_true, beq_iff_eq, bne_iff_ne, Ne]
  omega

theorem daysInMonth_le (month year : ℕ) : daysInMonth month year ≤ 31 := by
  unfold daysInMonth
  split_ifs <;> omega

theorem monthLengths_eq (year : ℕ) : monthLengths year =
    [0, 2678400, if Leap year then 2505600 else 2419200, 2678400, 2592000, 2678400, 2592000, 2678400,
      2678400, 2592000, 2678400, 2592000, 2678400] := by
  by_cases hleap : Leap year <;>
    simp [monthLengths, range_succ, secondsPerMonth, secondsInMonth, isLeapYear_eq, hleap,
      secondsPerDay, secondsPerHour, secondsPerMinute]

theorem monthLengths_getElem? (year : ℕ) (h₁ : 1 ≤ month) (h₂ : month ≤ 12) :
    (monthLengths year)[month]? = some (daysInMonth month year * 86400) := by
  rw [monthLengths_eq]
  by_cases hleap : Leap year <;> interval_cases month <;> simp [hleap, daysInMonth]

theorem sum_monthLengths (year : ℕ) : (monthLengths year).sum = secondsInYear year := by
  rw [monthLengths_eq]
  by_cases hleap : Leap year <;>
    simp [secondsInYear, isLeapYear_eq, hleap, secondsPerDay, secondsPerHour, secondsPerMinute]

/-- **The two ways to account for the leap day agree.** -/
theorem takeMonths_eq (year : ℕ) (h : month ≤ 12) :
    (secondsPerMonth.take month).sum + (if isLeapYear year && month > 2 then secondsPerDay else 0) =
      ((monthLengths year).take month).sum := by
  rw [monthLengths_eq]
  by_cases hleap : Leap year <;> interval_cases month <;>
    simp [secondsPerMonth, isLeapYear_eq, hleap, secondsPerDay, secondsPerHour, secondsPerMinute]

/-! ### Decoding -/

/-- The part of a year that is over at a date, where `days` days of the month are. -/
def inYear (days : ℕ) (dt : DateTime) : ℕ :=
  ((monthLengths dt.year).take dt.month).sum + (days * 86400 + dt.hour * 3600 + dt.minute * 60 + dt.second)

theorem secondsOf_eq (h : dt.month ≤ 12) :
    secondsOf days dt = total secondsInYear 2000 (dt.year - 2000) + inYear days dt := by
  rw [inYear, ← takeMonths_eq dt.year h]
  simp only [secondsOf, epochYear, secondsPerDay, secondsPerHour, secondsPerMinute]
  omega

theorem inYear_lt (h : dt.Valid) (hdays : days < daysInMonth dt.month dt.year) :
    inYear days dt < secondsInYear dt.year := by
  have hmonth := monthLengths_getElem? dt.year h.month_ge h.month_le
  obtain ⟨hlt, hget⟩ := List.getElem?_eq_some_iff.1 hmonth
  have hsplit := sum_take_add_sum_drop (monthLengths dt.year) dt.month
  rw [drop_eq_getElem_cons hlt, sum_cons, sum_monthLengths] at hsplit
  have hhour := h.hour_lt
  have hminute := h.minute_lt
  have hsecond := h.second_lt
  unfold inYear
  omega

/-- **Decoding undoes the sum**, where `days` days of the month are over. -/
theorem epoch2datetime_of_seconds (h : dt.Valid)
    (hdays : days < daysInMonth dt.month dt.year) (hep : ep / 1000 = secondsOf days dt) :
    epoch2datetime ep = some { dt with day := days + 1 } := by
  have hyear : 2000 + (dt.year - 2000) = dt.year := Nat.add_sub_cancel' h.year_ge
  have hhour := h.hour_lt
  have hminute := h.minute_lt
  have hsecond := h.second_lt
  -- the years
  have hyears : whole secondsInYear secondsInYear_pos epochYear (ep / 1000) = (dt.year, inYear days dt) := by
    rw [hep, secondsOf_eq h.month_le]
    have hwhole := whole_total_add secondsInYear secondsInYear_pos (dt.year - 2000) 2000 (inYear days dt)
    rw [hyear] at hwhole
    exact hwhole (inYear_lt h hdays)
  -- the months
  have hrest : days * 86400 + dt.hour * 3600 + dt.minute * 60 + dt.second <
      daysInMonth dt.month dt.year * 86400 := by
    omega
  have hmonths := scan_take_add (monthLengths dt.year) 0 dt.month _ _
    (monthLengths_getElem? dt.year h.month_ge h.month_le) hrest
  simp only [epoch2datetime, hyears, inYear, hmonths, map_some, whole_const, secondsPerDay,
    secondsPerHour, secondsPerMinute, Nat.zero_add, Nat.reduceMul]
  have hday : 1 + (days * 86400 + dt.hour * 3600 + dt.minute * 60 + dt.second) / 86400 = days + 1 := by
    omega
  have hh : (days * 86400 + dt.hour * 3600 + dt.minute * 60 + dt.second) % 86400 / 3600 = dt.hour := by
    omega
  have hm : (days * 86400 + dt.hour * 3600 + dt.minute * 60 + dt.second) % 86400 % 3600 / 60 = dt.minute := by
    omega
  have hs : (days * 86400 + dt.hour * 3600 + dt.minute * 60 + dt.second) % 86400 % 3600 % 60 = dt.second := by
    omega
  rw [hday, hh, hm, hs]

/-! ### Encoding -/

theorem sub64_one (h₁ : 1 ≤ day) (h₂ : day ≤ 31) : sub64 day 1 = day - 1 := sub64_of_le (by omega) h₁

/-- The milliseconds up to a date, without a bound. -/
def DateTime.millis (dt : DateTime) : ℕ := secondsOf (dt.day - 1) dt * 1000

theorem datetime2epoch_eq (h : dt.Valid) : datetime2epoch dt = dt.millis % 2 ^ 64 := by
  have hday := daysInMonth_le dt.month dt.year
  rw [datetime2epoch, sub64_one h.day_ge (h.day_le.trans hday), DateTime.millis]

theorem le_secondsInYear (year : ℕ) : 31536000 ≤ secondsInYear year := by
  unfold secondsInYear
  split <;> decide

theorem dayParts_add (t : ℕ) : t / 86400 * 86400 + t % 86400 / 3600 * 3600 +
    t % 86400 % 3600 / 60 * 60 + t % 86400 % 3600 % 60 = t := by
  omega

/-- **Every count of milliseconds** gives a valid date, which has that count up to a second. -/
theorem epoch2datetime_spec (ep : Word64) : ∃ dt, epoch2datetime ep = some dt ∧ dt.Valid ∧
    dt.millis = ep - ep % 1000 := by
  obtain ⟨n, r, hyears, hr, hsum⟩ := whole_spec secondsInYear secondsInYear_pos 2000 (ep.val / 1000)
  rw [← sum_monthLengths] at hr
  obtain ⟨i, q, l, hmonths, hl, hq, hrq⟩ := scan_spec _ 0 r hr
  -- the month is one of the calendar: the month 0 has no length
  have hi : 1 ≤ i ∧ i ≤ 12 := by
    have hlen := (List.getElem?_eq_some_iff.1 hl).1
    rw [monthLengths_eq] at hlen
    simp only [length_cons, length_nil] at hlen
    refine ⟨?_, by omega⟩
    by_contra hzero
    have h0 : i = 0 := by omega
    rw [h0, monthLengths_eq] at hl
    simp only [getElem?_cons_zero, some.injEq] at hl
    omega
  rw [monthLengths_getElem? _ hi.1 hi.2, some.injEq] at hl
  have hdecode : epoch2datetime ep = some ⟨1 + q / 86400, i, 2000 + n, q % 86400 / 3600,
      q % 86400 % 3600 / 60, q % 86400 % 3600 % 60⟩ := by
    simp only [epoch2datetime, epochYear, hyears, hmonths, map_some, whole_const, secondsPerDay,
      secondsPerHour, secondsPerMinute, Nat.zero_add, Nat.reduceMul]
  have hyear : 2000 + n < 2 ^ 31 := by
    have hle := le_total secondsInYear le_secondsInYear 2000 n
    omega
  refine ⟨_, hdecode, ⟨by simp, hyear, hi.1, hi.2, by simp, ?_, ?_, ?_, ?_⟩, ?_⟩
  · simp only
    omega
  · simp only
    omega
  · simp only
    omega
  · simp only
    omega
  · have hseconds := @secondsOf_eq (q / 86400) ⟨1 + q / 86400, i, 2000 + n, q % 86400 / 3600,
      q % 86400 % 3600 / 60, q % 86400 % 3600 % 60⟩ hi.2
    simp only [DateTime.millis, Nat.add_sub_cancel_left, inYear] at hseconds ⊢
    rw [hseconds, dayParts_add, ← hrq, ← hsum]
    exact Nat.div_mul_self_eq_mod_sub_self

/-! ### The result -/

/-- **Dates and milliseconds correspond.**  Every 64-bit count of milliseconds is decoded to a date of the
calendar, whose encoding is the count without the milliseconds of the last second; and a date of the calendar
is decoded from its encoding, if its count of milliseconds has 64 bits. -/
theorem epoch_roundTrip :
    (∀ ep : Word64, ∃ dt, epoch2datetime ep = some dt ∧ dt.Valid ∧ datetime2epoch dt = ep - ep % 1000) ∧
    ∀ dt : DateTime, dt.Valid → dt.millis < 2 ^ 64 → epoch2datetime (datetime2epoch dt) = some dt := by
  constructor
  · intro ep
    obtain ⟨dt, hdecode, hvalid, hmillis⟩ := epoch2datetime_spec ep
    refine ⟨dt, hdecode, hvalid, ?_⟩
    rw [datetime2epoch_eq hvalid, hmillis, Nat.mod_eq_of_lt (by omega)]
  · intro dt hvalid hlt
    have hday := hvalid.day_ge
    have hle := hvalid.day_le
    rw [datetime2epoch_eq hvalid, Nat.mod_eq_of_lt hlt]
    have hseconds : dt.millis / 1000 = secondsOf (dt.day - 1) dt := Nat.mul_div_cancel _ (by decide)
    have hdays : dt.day - 1 < daysInMonth dt.month dt.year := by omega
    rw [epoch2datetime_of_seconds hvalid hdays hseconds, Nat.sub_add_cancel hday]

/-- The last day of February 2024, a minute before midnight. -/
def leapDay : DateTime := ⟨29, 2, 2024, 23, 59, 0⟩

theorem epoch_roundTrip_leapDay : leapDay.Valid ∧ leapDay.millis < 2 ^ 64 ∧
    epoch2datetime (datetime2epoch leapDay) = some leapDay := by
  have hvalid : leapDay.Valid := by constructor <;> decide
  have hlt : leapDay.millis < 2 ^ 64 := by decide
  exact ⟨hvalid, hlt, epoch_roundTrip.2 leapDay hvalid hlt⟩

theorem le_millis (dt : DateTime) : (dt.year - 2000) * 31536000 * 1000 ≤ dt.millis := by
  have hyears := le_total secondsInYear le_secondsInYear 2000 (dt.year - 2000)
  rw [DateTime.millis, secondsOf, epochYear]
  apply Nat.mul_le_mul_right
  omega

/-- **A year that is too late.**  The first day of the last year that is an `int` is a date of the calendar,
and is not what its encoding is decoded to. -/
theorem epoch_overflows : ∃ dt : DateTime, dt.Valid ∧ dt.year = 2 ^ 31 - 1 ∧
    epoch2datetime (datetime2epoch dt) ≠ some dt := by
  obtain ⟨dt, hdt⟩ : ∃ dt : DateTime, dt = ⟨1, 1, 2 ^ 31 - 1, 0, 0, 0⟩ := ⟨_, rfl⟩
  have hyear : dt.year = 2 ^ 31 - 1 := by rw [hdt]
  refine ⟨dt, ?_, hyear, ?_⟩
  · subst hdt
    constructor <;> decide
  · intro hdecode
    have hep : datetime2epoch dt < 2 ^ 64 := Nat.mod_lt _ (by decide)
    obtain ⟨dt', hdecode', -, hmillis⟩ := epoch2datetime_spec ⟨datetime2epoch dt, hep⟩
    have hsame : dt' = dt := some.inj (hdecode'.symm.trans hdecode)
    have hle := le_millis dt
    rw [← hsame, hmillis, hsame] at hle
    omega

end Btos.Kernel.Rtc
