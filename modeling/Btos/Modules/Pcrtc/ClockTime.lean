import Btos.Kernel.Rtc.Convert

/-!
# The clock driver

`modules/hwpnp/pcrtc`: `get_rtc_time` reads the date and the time from the registers of the CMOS clock, and
`init_clock` turns them into milliseconds with a copy of the kernel's conversion.  In the copy, the number of the
day in the month is taken for the number of days that are over.

* `getRtcTime` — **the registers read**, in binary or as decimal digits, with 24 or with 12 hours;
* `initClock` — **the driver's conversion**;
* `initClock_decoded` — the kernel decodes every date that the driver reads to **the day after**.
-/

namespace Btos.Modules.Pcrtc

open Kernel.Rtc Lib.Units Lib.Word

/-! ### The registers -/

def bcdtobin (bcd : ℕ) : ℕ := ((bcd &&& 0xF0) >>> 1) + ((bcd &&& 0xF0) >>> 3) + (bcd &&& 0xf)

/-- **`get_rtc_time`**; `cmos` are the registers of the clock. -/
def getRtcTime (cmos : ℕ → UInt8) : DateTime :=
  let reg := fun n => (cmos n).toNat
  let rtcBin := (reg 0x0B &&& 4) != 0
  let rtc24h := (reg 0x0B &&& 2) != 0
  let rtcPm := !rtc24h && (reg 0x04 &&& 0x80) != 0
  let value := fun v => if rtcBin then v else bcdtobin v
  let hour := value (if rtc24h then reg 0x04 else reg 0x04 - (reg 0x04 &&& 0x80))
  let hour := if rtcPm then if hour + 12 = 24 then 12 else hour + 12 else hour
  let hour := if !rtc24h && !rtcPm && hour == 12 then 0 else hour
  ⟨value (reg 0x07), value (reg 0x08), value (reg 0x09) + 2000, hour, value (reg 0x02), value (reg 0x00)⟩

def bintobcd (n : ℕ) : ℕ := 16 * (n / 10) + n % 10

/-- An hour as the clock shows it: the upper bit marks the hours from noon on where there are only 12. -/
def hourRegister (rtc24h : Bool) (value : ℕ → ℕ) (hour : ℕ) : ℕ :=
  if rtc24h then value hour
  else value (if hour % 12 = 0 then 12 else hour % 12) + if 12 ≤ hour then 0x80 else 0

/-- What the clock shows for a date of the years 2000 to 2099. -/
def registers (rtcBin rtc24h : Bool) (dt : DateTime) (n : ℕ) : UInt8 :=
  let value := fun v => if rtcBin then v else bintobcd v
  UInt8.ofNat (match n with
    | 0x00 => value dt.second
    | 0x02 => value dt.minute
    | 0x04 => hourRegister rtc24h value dt.hour
    | 0x07 => value dt.day
    | 0x08 => value dt.month
    | 0x09 => value (dt.year - 2000)
    | 0x0B => (if rtcBin then 4 else 0) + if rtc24h then 2 else 0
    | _ => 0)

theorem value_register (rtcBin : Bool) (h : v < 100) :
    (if rtcBin then (UInt8.ofNat (if rtcBin then v else bintobcd v)).toNat
      else bcdtobin (UInt8.ofNat (if rtcBin then v else bintobcd v)).toNat) = v := by
  have hall : ∀ b : Bool, ∀ n : Fin 100, (if b then (UInt8.ofNat (if b then n.val else bintobcd n)).toNat
      else bcdtobin (UInt8.ofNat (if b then n.val else bintobcd n)).toNat) = n := by
    decide +kernel
  exact hall rtcBin ⟨v, h⟩

theorem hour_register (rtcBin rtc24h : Bool) (dt : DateTime) (h : dt.hour < 24) :
    (getRtcTime (registers rtcBin rtc24h dt)).hour = dt.hour := by
  have hall : ∀ b m : Bool, ∀ n : Fin 24, (getRtcTime (registers b m ⟨0, 0, 0, n, 0, 0⟩)).hour = n := by
    decide +kernel
  exact hall rtcBin rtc24h ⟨dt.hour, h⟩

/-- **A date that the clock shows is read as that date.** -/
theorem getRtcTime_registers (rtcBin rtc24h : Bool) (h : dt.Valid) (hyear : dt.year < 2100) :
    getRtcTime (registers rtcBin rtc24h dt) = dt := by
  have hbin : ((registers rtcBin rtc24h dt 0x0B).toNat &&& 4 != 0) = rtcBin := by
    cases rtcBin <;> cases rtc24h <;> simp [registers]
  have hday := h.day_le.trans (daysInMonth_le dt.month dt.year)
  have hmonth := h.month_le
  have hge := h.year_ge
  have hminute := h.minute_lt
  have hsecond := h.second_lt
  have hhour := hour_register rtcBin rtc24h dt h.hour_lt
  have hvalue := fun {v : ℕ} (hv : v < 100) => value_register rtcBin hv
  have hfields : getRtcTime (registers rtcBin rtc24h dt) =
      ⟨dt.day, dt.month, dt.year - 2000 + 2000, dt.hour, dt.minute, dt.second⟩ := by
    rw [← hhour]
    simp only [getRtcTime, hbin, DateTime.mk.injEq]
    refine ⟨hvalue (by omega), hvalue (by omega), ?_, trivial, hvalue (by omega), hvalue (by omega)⟩
    rw [Nat.add_right_cancel_iff]
    exact hvalue (by omega)
  rw [hfields, Nat.sub_add_cancel hge]

/-! ### The conversion -/

/-- **`init_clock`**: `boot_msec`, which the driver's `datetime2epoch` computes.  The number of the day stands
for the days that are over. -/
def initClock (bootTime : DateTime) : ℕ := secondsOf bootTime.day bootTime * 1000 % 2 ^ 64

def nextDay (dt : DateTime) : DateTime :=
  if dt.day < daysInMonth dt.month dt.year then { dt with day := dt.day + 1 }
  else if dt.month < 12 then { dt with day := 1, month := dt.month + 1 }
  else { dt with day := 1, month := 1, year := dt.year + 1 }

theorem daysInMonth_pos (month year : ℕ) : 1 ≤ daysInMonth month year := by
  unfold daysInMonth
  split_ifs <;> decide

theorem nextDay_valid (h : dt.Valid) (hyear : dt.year + 1 < 2 ^ 31) : (nextDay dt).Valid := by
  unfold nextDay
  split_ifs with hday hmonth
  · exact { h with day_ge := Nat.succ_pos _, day_le := hday }
  · exact { h with
      month_ge := Nat.succ_pos _
      month_le := hmonth
      day_ge := Nat.le_refl 1
      day_le := daysInMonth_pos _ _ }
  · exact { h with
      year_ge := Nat.le_succ_of_le h.year_ge
      year_lt := hyear
      month_ge := Nat.le_refl 1
      month_le := (by decide : 1 ≤ 12)
      day_ge := Nat.le_refl 1
      day_le := daysInMonth_pos _ _ }

/-- **One day too many is the next day.** -/
theorem secondsOf_nextDay (h : dt.Valid) :
    secondsOf dt.day dt = secondsOf ((nextDay dt).day - 1) (nextDay dt) := by
  have hmonth := h.month_le
  have hlast : ¬dt.day < daysInMonth dt.month dt.year → dt.day = daysInMonth dt.month dt.year :=
    fun hnot => Nat.le_antisymm h.day_le (Nat.not_lt.1 hnot)
  -- a month up to its end is the months up to the next one
  have hend : ((monthLengths dt.year).take (dt.month + 1)).sum =
      ((monthLengths dt.year).take dt.month).sum + daysInMonth dt.month dt.year * 86400 := by
    rw [List.take_add_one, monthLengths_getElem? dt.year h.month_ge hmonth]
    simp
  unfold nextDay
  split_ifs with hday hless
  · rfl
  · rw [secondsOf_eq hmonth, secondsOf_eq (Nat.succ_le_of_lt hless)]
    simp only [inYear, hend, hlast hday]
    omega
  · -- the last day of a year
    have htwelve : dt.month = 12 := by omega
    have hsum : ((monthLengths dt.year).take 13).sum = secondsInYear dt.year := by
      rw [← sum_monthLengths]
      rfl
    have hfirst : ((monthLengths (dt.year + 1)).take 1).sum = 0 := by
      rfl
    have hyear : dt.year + 1 - 2000 = dt.year - 2000 + 1 := Nat.succ_sub h.year_ge
    have hback : 2000 + (dt.year - 2000) = dt.year := Nat.add_sub_cancel' h.year_ge
    rw [htwelve] at hend
    rw [secondsOf_eq hmonth, secondsOf_eq (by decide : 1 ≤ 12)]
    simp only [inYear, hfirst, hlast hday, hyear, total_succ, hback, htwelve, ← hsum, hend]
    omega

theorem nextDay_ne (dt : DateTime) : nextDay dt ≠ dt := by
  unfold nextDay
  split_ifs with hday hmonth
  · intro heq
    have := congrArg DateTime.day heq
    simp at this
  · intro heq
    have := congrArg DateTime.month heq
    simp at this
  · intro heq
    have := congrArg DateTime.year heq
    simp at this

theorem getRtcTime_year_lt (cmos : ℕ → UInt8) : (getRtcTime cmos).year < 2256 := by
  have hbyte := (cmos 0x09).toNat_lt
  have hhigh : (cmos 0x09).toNat &&& 0xF0 ≤ 0xF0 := Nat.and_le_right
  have hlow : (cmos 0x09).toNat &&& 0xf ≤ 0xf := Nat.and_le_right
  simp only [getRtcTime, bcdtobin, Nat.shiftRight_eq_div_pow]
  split <;> omega

theorem millis_lt {dt : DateTime} (h : dt.Valid) (hyear : dt.year ≤ 2256) : dt.millis < 2 ^ 64 := by
  have hlen : ∀ y, secondsInYear y ≤ 31622400 := by
    intro y
    unfold secondsInYear
    split <;> decide
  have hday := h.day_ge
  have hle := h.day_le
  have hyears := total_le secondsInYear hlen 2000 (dt.year - 2000)
  have hrest := inYear_lt h (show dt.day - 1 < _ by omega)
  have hlast := hlen dt.year
  rw [DateTime.millis, secondsOf_eq h.month_le]
  omega

/-- **Every date is decoded to the day after.**  Whatever the registers of the clock are, if they are read as a
date of the calendar then the kernel decodes the driver's milliseconds to the same time of the next day, and so
never to the date that was read. -/
theorem initClock_decoded (cmos : ℕ → UInt8) (h : (getRtcTime cmos).Valid) :
    epoch2datetime (initClock (getRtcTime cmos)) = some (nextDay (getRtcTime cmos)) ∧
      (epoch2datetime (initClock (getRtcTime cmos)) = some (getRtcTime cmos) ↔ False) := by
  obtain ⟨dt, hdt⟩ : ∃ dt, dt = getRtcTime cmos := ⟨_, rfl⟩
  have hyear := getRtcTime_year_lt cmos
  rw [← hdt] at h hyear ⊢
  have hnext := nextDay_valid h (by omega)
  have hle : (nextDay dt).year ≤ 2256 := by
    unfold nextDay
    split_ifs <;> simp only <;> omega
  have hepoch : initClock dt = (nextDay dt).millis := by
    rw [initClock, secondsOf_nextDay h]
    exact Nat.mod_eq_of_lt (millis_lt hnext hle)
  have hseconds : (nextDay dt).millis / 1000 = secondsOf ((nextDay dt).day - 1) (nextDay dt) :=
    Nat.mul_div_cancel _ (by decide)
  have hday := hnext.day_ge
  have hdecode : epoch2datetime (initClock dt) = some (nextDay dt) := by
    have hlast := hnext.day_le
    rw [hepoch, epoch2datetime_of_seconds hnext (by omega) hseconds, Nat.sub_add_cancel hday]
  refine ⟨hdecode, ?_⟩
  rw [hdecode, Option.some.injEq]
  exact ⟨nextDay_ne dt, False.elim⟩

def firstSecond : DateTime := ⟨1, 1, 2000, 0, 0, 0⟩

/-- The clock shows the last second of 2099, in decimal digits and with 12 hours: the kernel gets the last
second of the first of January. -/
theorem initClock_decoded_last :
    (getRtcTime (registers false false ⟨31, 12, 2099, 23, 59, 59⟩)).Valid ∧
      epoch2datetime (initClock (getRtcTime (registers false false ⟨31, 12, 2099, 23, 59, 59⟩))) =
        some ⟨1, 1, 2100, 23, 59, 59⟩ := by
  have hvalid : (DateTime.mk 31 12 2099 23 59 59).Valid := by constructor <;> decide
  have hread := getRtcTime_registers false false hvalid (by decide)
  have hmain := (initClock_decoded (registers false false ⟨31, 12, 2099, 23, 59, 59⟩)
    (hread.symm ▸ hvalid)).1
  exact ⟨hvalid, hmain⟩

/-- **The first of January is decoded to the second.** -/
theorem initClock_first : firstSecond.Valid ∧ initClock firstSecond = 86400000 ∧
    epoch2datetime (initClock firstSecond) = some ⟨2, 1, 2000, 0, 0, 0⟩ := by
  have hvalid : firstSecond.Valid := by constructor <;> decide
  have hnext : (DateTime.mk 2 1 2000 0 0 0).Valid := by constructor <;> decide
  have hepoch : initClock firstSecond = 86400000 := by decide
  refine ⟨hvalid, hepoch, ?_⟩
  exact epoch2datetime_of_seconds hnext (show 1 < _ by decide) (by decide)

end Btos.Modules.Pcrtc
