import LainOS.Libc.Calendar

/-!
# The clock formula

`clock_unix_time_from_rtc` (written in Z) counts the days from year 0 with divisions by 4, 100 and
400. On every valid time it agrees with the loops of the C library (`unixTimeFromRtc_eq_mktime`).
-/

namespace Clock

open Libc

def isLeapYear (year : UInt32) : Bool :=
  if year / 4 * 4 ≠ year then false
  else if year / 100 * 100 ≠ year then true
  else year / 400 * 400 = year

def daysBeforeYear (year : UInt32) : UInt32 :=
  if year = 0 then 0
  else year * 365 + (year - 1) / 4 - (year - 1) / 100 + (year - 1) / 400 + 1

/-- The days of the months that are over, without a leap day. -/
def daysBeforeMonth (year month : UInt32) : UInt32 :=
  if month = 0 ∨ 12 < month then 0
  else
    let days := [31, 28, 31, 30, 31, 30, 31, 31, 30, 31, 30].zipIdx.foldl
      (fun days m => if UInt32.ofNat (m.2 + 1) < month then days + m.1 else days) 0
    if 2 < month ∧ isLeapYear year then days + 1 else days

def daysSinceYear0 (year month day : UInt32) : UInt32 :=
  if month < 1 ∨ 12 < month ∨ day < 1 ∨ 31 < day then 0
  else daysBeforeYear year + daysBeforeMonth year month + day - 1

def secondsSinceMidnight (hour minute second : UInt32) : UInt32 :=
  if 23 < hour ∨ 59 < minute ∨ 60 < second then 0 else hour * 3600 + minute * 60 + second

structure RtcTime where
  year : UInt32
  month : UInt32
  day : UInt32
  hour : UInt32
  minute : UInt32
  second : UInt32
  deriving DecidableEq, Repr

def maxDay (year month : UInt32) : UInt32 :=
  if month = 2 then if isLeapYear year then 29 else 28
  else if month = 4 ∨ month = 6 ∨ month = 9 ∨ month = 11 then 30 else 31

def rtcTimeValid (time : RtcTime) : Bool :=
  ¬ (time.year < 1970 ∨ 9999 < time.year ∨ time.month < 1 ∨ 12 < time.month ∨ 23 < time.hour ∨
    59 < time.minute ∨ 60 < time.second) ∧ ¬ (time.day < 1 ∨ maxDay time.year time.month < time.day)

def unixTimeFromRtc (time : RtcTime) : UInt64 :=
  if ¬ rtcTimeValid time then 0
  else
    let days := daysSinceYear0 time.year time.month time.day
    if days < 719528 then 0
    else (days - 719528).toUInt64 * 86400 +
      (secondsSinceMidnight time.hour time.minute time.second).toUInt64

/-- The same date and time of day for the C library. -/
def RtcTime.toTm (time : RtcTime) : Tm where
  sec := time.second.toNat
  min := time.minute.toNat
  hour := time.hour.toNat
  mday := time.day.toNat
  mon := (time.month.toNat - 1 : ℕ)
  year := time.year.toNat - 1900
  wday := 0
  yday := 0
  isdst := 0

lemma isLeapYear_eq (year : UInt32) : isLeapYear year = Libc.isLeapYear year.toNat := by
  rw [Bool.eq_iff_iff, isLeapYear_iff, isLeapYear]
  have hmul : ∀ d : UInt32, d ≠ 0 → (year / d * d = year ↔ (d.toNat : ℤ) ∣ year.toNat) := by
    intro d hd
    rw [← UInt32.toNat_inj, UInt32.toNat_mul, UInt32.toNat_div, Nat.mod_eq_of_lt
      (lt_of_le_of_lt (Nat.div_mul_le_self _ _) year.toNat_lt), Int.natCast_dvd_natCast]
    exact ⟨Dvd.intro_left _, Nat.div_mul_cancel⟩
  have h4 := hmul 4 (by decide)
  have h100 := hmul 100 (by decide)
  have h400 := hmul 400 (by decide)
  simp only [UInt32.reduceToNat, Nat.cast_ofNat] at h4 h100 h400
  split_ifs with h h'
  · rw [ne_eq, h4] at h
    refine iff_of_false (by decide) ?_
    omega
  · rw [ne_eq, h100] at h'
    rw [not_ne_iff, h4] at h
    exact iff_of_true rfl (.inl ⟨h, h'⟩)
  · rw [not_ne_iff, h100] at h'
    rw [decide_eq_true_iff, h400, or_iff_right fun h => h.2 h']

/-- The days before a year, from year 0 on. -/
def gregorian (year : ℤ) : ℤ :=
  year * 365 + (year - 1) / 4 - (year - 1) / 100 + (year - 1) / 400 + 1

lemma gregorian_succ (year : ℤ) : gregorian (year + 1) = gregorian year + yearLength year := by
  rw [gregorian, gregorian, yearLength]
  split_ifs with h <;> rw [isLeapYear_iff] at h <;> omega

lemma yearDays_eq_gregorian {year : ℤ} (h : 1970 ≤ year) :
    Libc.daysBeforeYear year = gregorian year - 719528 := by
  obtain ⟨n, rfl⟩ : ∃ n : ℕ, year = 1970 + n := ⟨(year - 1970).toNat, by omega⟩
  induction n with
  | zero => rfl
  | succ n ih =>
    rw [Nat.cast_succ, ← add_assoc, yearDays_succ, gregorian_succ, ih (by omega)]
    ring

lemma toNat_daysBeforeYear {year : UInt32} (h1 : 1 ≤ year.toNat) (h : year.toNat ≤ 9999) :
    ((daysBeforeYear year).toNat : ℤ) = gregorian year.toNat := by
  have hne : year ≠ 0 := by
    rintro rfl
    exact absurd h1 (by decide)
  have hprev : (year - 1).toNat = year.toNat - 1 :=
    UInt32.toNat_sub_of_le _ _ (UInt32.le_iff_toNat_le.mpr h1)
  rw [daysBeforeYear, if_neg hne, gregorian]
  simp only [UInt32.toNat_add, UInt32.toNat_sub, UInt32.toNat_mul, UInt32.toNat_div, hprev,
    UInt32.reduceToNat]
  obtain ⟨n, hn⟩ : ∃ n, year.toNat = n + 1 := Nat.exists_eq_add_of_le' h1
  rw [hn, Nat.add_sub_cancel, Nat.cast_succ, add_sub_cancel_right]
  omega

/-- The tables of the months agree. -/
lemma month_agrees {month : UInt32} (year : UInt32) (h1 : 1 ≤ month.toNat) (h : month.toNat ≤ 12) :
    ((daysBeforeMonth year month).toNat : ℤ) = Libc.daysBeforeMonth year.toNat (month.toNat - 1) ∧
      ((maxDay year month).toNat : ℤ) = daysInMonth year.toNat (month.toNat - 1) := by
  have hmonth : month = UInt32.ofNat month.toNat := (UInt32.ofNat_toNat).symm
  generalize month.toNat = k at *
  subst hmonth
  rw [daysBeforeMonth, maxDay, isLeapYear_eq]
  interval_cases k <;> simp only [Nat.sub_self, Libc.daysBeforeMonth, daysInMonth] <;>
    cases Libc.isLeapYear year.toNat <;> decide

/-! ### Main result -/

section

variable {time : RtcTime} (h : rtcTimeValid time) (hs : time.second < 60)
include h hs

lemma rtcTime_bounds : (1970 ≤ time.year.toNat ∧ time.year.toNat ≤ 9999) ∧
    (1 ≤ time.month.toNat ∧ time.month.toNat ≤ 12) ∧ (1 ≤ time.day.toNat ∧ time.day.toNat ≤ 31) ∧
    time.hour.toNat ≤ 23 ∧ time.minute.toNat ≤ 59 ∧ time.second.toNat < 60 ∧
    (time.day.toNat : ℤ) ≤ daysInMonth time.year.toNat (time.month.toNat - 1) := by
  rw [rtcTimeValid, decide_eq_true_iff] at h
  simp only [not_or, UInt32.not_lt, UInt32.le_iff_toNat_le] at h
  obtain ⟨⟨hy, hy', hm, hm', hh, hmin, -⟩, hd, hd'⟩ := h
  have hmax : (maxDay time.year time.month).toNat ≤ 31 := by
    rw [maxDay]
    split_ifs <;> decide
  rw [← (month_agrees time.year hm hm').2, Int.ofNat_le]
  exact ⟨⟨hy, hy'⟩, ⟨hm, hm'⟩, ⟨hd, hd'.trans hmax⟩, hh, hmin, UInt32.lt_iff_toNat_lt.mp hs, hd'⟩

lemma toTm_valid : time.toTm.Valid := by
  obtain ⟨⟨hy, hy'⟩, ⟨hm, hm'⟩, ⟨hd, -⟩, hh, hmin, hsec, hd'⟩ := rtcTime_bounds h hs
  constructor <;> simp only [RtcTime.toTm, sub_add_cancel, Int.toNat_natCast] <;> omega

/-- The days that the formula counts are those of the C library. -/
lemma toNat_daysSinceYear0 :
    ((daysSinceYear0 time.year time.month time.day).toNat : ℤ) = time.toTm.dayNumber + 719528 ∧
      0 ≤ time.toTm.dayNumber := by
  obtain ⟨⟨hy, hy'⟩, ⟨hm, hm'⟩, ⟨hd, hd'⟩, -⟩ := rtcTime_bounds h hs
  have hyear := toNat_daysBeforeYear (by omega) hy'
  have hmonth := (month_agrees time.year hm hm').1
  have hrange := (toTm_valid h hs).yearDay
  have hlength : yearLength time.year.toNat ≤ 366 := by
    rw [yearLength]
    split_ifs <;> decide
  have hsum : 719528 ≤ gregorian time.year.toNat ∧ gregorian time.year.toNat < 2 ^ 31 := by
    rw [gregorian]
    omega
  simp only [Tm.dayNumber, RtcTime.toTm, sub_add_cancel, Int.toNat_natCast, ← hmonth] at hrange ⊢
  rw [yearDays_eq_gregorian (by omega), ← hyear, daysSinceYear0, if_neg]
  · rw [← hyear] at hsum
    simp only [UInt32.toNat_sub, UInt32.toNat_add, UInt32.reduceToNat]
    omega
  · simp only [not_or, UInt32.not_lt, UInt32.le_iff_toNat_le]
    exact ⟨hm, hm', hd, hd'⟩

lemma toNat_unixTimeFromRtc : ((unixTimeFromRtc time).toNat : ℤ) = mktime time.toTm := by
  obtain ⟨-, -, -, hh, hmin, hsec, -⟩ := rtcTime_bounds h hs
  obtain ⟨hdays, hpos⟩ := toNat_daysSinceYear0 h hs
  have hseconds : (secondsSinceMidnight time.hour time.minute time.second).toNat =
      time.hour.toNat * 3600 + time.minute.toNat * 60 + time.second.toNat := by
    rw [secondsSinceMidnight, if_neg]
    · simp only [UInt32.toNat_add, UInt32.toNat_mul, UInt32.reduceToNat]
      omega
    · simp only [not_or, UInt32.not_lt, UInt32.le_iff_toNat_le]
      exact ⟨hh, hmin, hsec.le⟩
  have hle : (719528 : UInt32) ≤ daysSinceYear0 time.year time.month time.day := by
    rw [UInt32.le_iff_toNat_le]
    simp only [UInt32.reduceToNat]
    omega
  have hlt := (daysSinceYear0 time.year time.month time.day).toNat_lt
  rw [unixTimeFromRtc, if_neg (not_not.mpr h), mktime]
  dsimp only
  rw [if_neg (UInt32.not_lt.mpr hle)]
  simp only [UInt64.toNat_add, UInt64.toNat_mul, UInt32.toNat_toUInt64, hseconds,
    UInt32.toNat_sub_of_le _ _ hle, UInt32.reduceToNat, UInt64.reduceToNat]
  simp only [RtcTime.toTm] at hdays hpos ⊢
  omega

/-- The formula agrees with `mktime`, and `gmtime_r` gives the fields back. -/
theorem unixTimeFromRtc_eq_mktime :
    ((unixTimeFromRtc time).toNat : ℤ) = mktime time.toTm ∧
      let tm := gmtimeR (unixTimeFromRtc time).toNat
      tm.year = time.year.toNat - 1900 ∧ tm.mon = (time.month.toNat - 1 : ℕ) ∧ tm.mday = time.day.toNat ∧
        tm.hour = time.hour.toNat ∧ tm.min = time.minute.toNat ∧ tm.sec = time.second.toNat := by
  have heq := toNat_unixTimeFromRtc h hs
  obtain ⟨hvalid, -⟩ := gmtimeR_spec (unixTimeFromRtc time).toNat
  exact ⟨heq, hvalid.unique (toTm_valid h hs) ((mktime_of_gmtimeR _).trans heq)⟩

end

/-- Noon of a leap day. -/
theorem unixTimeFromRtc_leapDay :
    (gmtimeR (unixTimeFromRtc ⟨2024, 2, 29, 12, 0, 0⟩).toNat).mday = 29 :=
  (@unixTimeFromRtc_eq_mktime ⟨2024, 2, 29, 12, 0, 0⟩ (by decide) (by decide)).2.2.2.1

end Clock
