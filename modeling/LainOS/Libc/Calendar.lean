import Mathlib.Tactic

/-!
# Calendar time

`gmtime_r` and `mktime` of the C library. Both count years and months one by one. What they have in
common is the number of the day (`Tm.dayNumber`): `gmtime_r` splits it, `mktime` puts it together.
As long as the year fits in an `int`, none of the numbers overflows (`mktime_fits`).
-/

namespace Libc

def isLeapYear (year : ℤ) : Bool :=
  (year.tmod 4 = 0 ∧ year.tmod 100 ≠ 0) ∨ year.tmod 400 = 0

def daysInMonth (year : ℤ) (month : ℕ) : ℤ :=
  if month = 1 ∧ isLeapYear year then 29
  else [31, 28, 31, 30, 31, 30, 31, 31, 30, 31, 30, 31].getD month 30

def yearLength (year : ℤ) : ℤ := if isLeapYear year then 366 else 365

/-- The days of `n` years from 1970 on. -/
def daysFrom1970 : ℕ → ℤ
  | 0 => 0
  | n + 1 => daysFrom1970 n + yearLength (1970 + n)

/-- The days of `n` years from `year` on, counted down. -/
def daysDown (year : ℤ) : ℕ → ℤ
  | 0 => 0
  | n + 1 => daysDown year n - yearLength (year + n)

def daysBeforeYear (year : ℤ) : ℤ :=
  if 1970 ≤ year then daysFrom1970 (year - 1970).toNat else daysDown year (1970 - year).toNat

structure Tm where
  sec : ℤ
  min : ℤ
  hour : ℤ
  mday : ℤ
  mon : ℤ
  year : ℤ
  wday : ℤ
  yday : ℤ
  isdst : ℤ
  deriving DecidableEq, Repr

lemma yearLength_pos (year : ℤ) : 0 < yearLength year := by
  rw [yearLength]
  split_ifs <;> decide

lemma daysInMonth_bounds (year : ℤ) (month : ℕ) :
    0 < daysInMonth year month ∧ daysInMonth year month ≤ 31 := by
  rw [daysInMonth]
  split_ifs
  · decide
  · rcases Nat.lt_or_ge month 12 with h | h
    · interval_cases month <;> decide
    · rw [List.getD_eq_getElem?_getD, List.getElem?_eq_none h]
      decide

/-- The first loop of `gmtime_r`: years that are over. -/
def skipYears (days year : ℤ) : ℤ × ℤ :=
  if yearLength year ≤ days then skipYears (days - yearLength year) (year + 1) else (days, year)
termination_by days.toNat
decreasing_by
  have := yearLength_pos year
  omega

/-- The second loop: years before 1970. -/
def backYears (days year : ℤ) : ℤ × ℤ :=
  if days < 0 then backYears (days + yearLength (year - 1)) (year - 1) else (days, year)
termination_by (-days).toNat
decreasing_by
  have := yearLength_pos (year - 1)
  omega

/-- The third loop: months that are over. -/
def skipMonths (year days : ℤ) (mon : ℕ) : ℤ × ℕ :=
  if daysInMonth year mon ≤ days then skipMonths year (days - daysInMonth year mon) (mon + 1)
  else (days, mon)
termination_by days.toNat
decreasing_by
  have := (daysInMonth_bounds year mon).1
  omega

def gmtimeR (timer : ℤ) : Tm :=
  let r := timer.tmod 86400
  let days := if r < 0 then timer.tdiv 86400 - 1 else timer.tdiv 86400
  let daySeconds := if r < 0 then r + 86400 else r
  let passed := skipYears days 1970
  let y := backYears passed.1 passed.2
  let m := skipMonths y.2 y.1 0
  let wday := (4 + timer.tdiv 86400).tmod 7
  { year := y.2 - 1900
    yday := y.1
    mon := m.2
    mday := m.1 + 1
    hour := daySeconds / 3600
    min := daySeconds / 60 % 60
    sec := daySeconds % 60
    wday := if wday < 0 then wday + 7 else wday
    isdst := 0 }

/-- The days of the first `n` months of a year. -/
def daysBeforeMonth (year : ℤ) : ℕ → ℤ
  | 0 => 0
  | n + 1 => daysBeforeMonth year n + daysInMonth year n

/-- `days` in `mktime`: the days from 1970 to the date. -/
def Tm.dayNumber (tm : Tm) : ℤ :=
  daysBeforeYear (tm.year + 1900) + daysBeforeMonth (tm.year + 1900) tm.mon.toNat + (tm.mday - 1)

def mktime (tm : Tm) : ℤ := tm.dayNumber * 86400 + tm.hour * 3600 + tm.min * 60 + tm.sec

/-! ### Counting years -/

section

variable {days year : ℤ}

lemma isLeapYear_iff : isLeapYear year ↔ 4 ∣ year ∧ ¬ 100 ∣ year ∨ 400 ∣ year := by
  rw [isLeapYear, decide_eq_true_iff, Int.dvd_iff_tmod_eq_zero, Int.dvd_iff_tmod_eq_zero,
    Int.dvd_iff_tmod_eq_zero]

lemma daysDown_succ (year : ℤ) (n : ℕ) :
    daysDown year (n + 1) = daysDown (year + 1) n - yearLength year := by
  induction n with
  | zero => simp [daysDown]
  | succ n ih =>
    rw [daysDown, ih, daysDown, show year + 1 + (n : ℤ) = year + ((n + 1 : ℕ) : ℤ) by push_cast; ring]
    ring

lemma yearDays_succ (year : ℤ) :
    daysBeforeYear (year + 1) = daysBeforeYear year + yearLength year := by
  rw [daysBeforeYear, daysBeforeYear]
  rcases lt_trichotomy year 1969 with h | h | h
  · rw [if_neg (by omega), if_neg (by omega),
      show (1970 - year).toNat = (1970 - (year + 1)).toNat + 1 by omega, daysDown_succ]
    ring
  · subst h
    decide
  · rw [if_pos (by omega), if_pos (by omega),
      show (year + 1 - 1970).toNat = (year - 1970).toNat + 1 by omega, daysFrom1970,
      show (1970 : ℤ) + ((year - 1970).toNat : ℤ) = year by omega]

lemma skipYears_spec (days year : ℤ) :
    let r := skipYears days year
    daysBeforeYear r.2 + r.1 = daysBeforeYear year + days ∧ r.1 < yearLength r.2 := by
  fun_induction skipYears days year with
  | case1 days year h ih =>
    rw [yearDays_succ] at ih
    exact ⟨by have := ih.1; omega, ih.2⟩
  | case2 days year h => exact ⟨rfl, Int.not_le.mp h⟩

lemma backYears_spec (h : days < yearLength year) :
    let r := backYears days year
    daysBeforeYear r.2 + r.1 = daysBeforeYear year + days ∧ 0 ≤ r.1 ∧ r.1 < yearLength r.2 := by
  fun_induction backYears days year with
  | case1 days year hneg ih =>
    have hprev := yearDays_succ (year - 1)
    rw [sub_add_cancel] at hprev
    obtain ⟨hsum, hrest⟩ := ih (by omega)
    exact ⟨by omega, hrest⟩
  | case2 days year hneg => exact ⟨rfl, Int.not_lt.mp hneg, h⟩

end

/-! ### Counting months -/

section

variable {year days : ℤ} {mon : ℕ}

/-- The table adds up to a year. -/
lemma monthDays_twelve (year : ℤ) : daysBeforeMonth year 12 = yearLength year := by
  rw [yearLength]
  split_ifs with h <;> simp [daysBeforeMonth, daysInMonth, h]

variable (h0 : 0 ≤ days) (hmon : mon ≤ 12) (h : daysBeforeMonth year mon + days < yearLength year)
include h0 hmon h

/-- A year that is not over is in one of its months. -/
lemma lt_twelve : mon < 12 := by
  refine lt_of_le_of_ne hmon fun heq => ?_
  rw [heq, monthDays_twelve] at h
  omega

lemma skipMonths_spec :
    let r := skipMonths year days mon
    daysBeforeMonth year r.2 + r.1 = daysBeforeMonth year mon + days ∧ r.2 < 12 ∧ 0 ≤ r.1 ∧
      r.1 < daysInMonth year r.2 := by
  fun_induction skipMonths year days mon with
  | case1 days mon hle ih =>
    have hnext : daysBeforeMonth year (mon + 1) + (days - daysInMonth year mon) =
        daysBeforeMonth year mon + days := by
      rw [daysBeforeMonth]
      ring
    obtain ⟨hsum, hrest⟩ := ih (by omega) (lt_twelve h0 hmon h) (by rwa [hnext])
    exact ⟨hsum.trans hnext, hrest⟩
  | case2 days mon hlt => exact ⟨rfl, lt_twelve h0 hmon h, h0, Int.not_le.mp hlt⟩

end

/-! ### Main results -/

/-- The fields of a date and a time of day. -/
structure Tm.Valid (tm : Tm) : Prop where
  mon : 0 ≤ tm.mon ∧ tm.mon ≤ 11
  mday : 1 ≤ tm.mday ∧ tm.mday ≤ daysInMonth (tm.year + 1900) tm.mon.toNat
  hour : 0 ≤ tm.hour ∧ tm.hour ≤ 23
  min : 0 ≤ tm.min ∧ tm.min ≤ 59
  sec : 0 ≤ tm.sec ∧ tm.sec ≤ 59

variable (t : ℤ)

lemma tmod_bounds (a : ℤ) {b : ℤ} (hb : 0 < b) : -b < a.tmod b ∧ a.tmod b < b := by
  have hneg := Int.tmod_lt_of_pos (-a) hb
  rw [Int.neg_tmod] at hneg
  exact ⟨neg_lt.mp hneg, Int.tmod_lt_of_pos a hb⟩

/-- The division of `gmtime_r`, corrected for negative times, rounds down. -/
lemma floor_days : (if t.tmod 86400 < 0 then t.tdiv 86400 - 1 else t.tdiv 86400) = t / 86400 ∧
    (if t.tmod 86400 < 0 then t.tmod 86400 + 86400 else t.tmod 86400) = t % 86400 := by
  have hdiv := Int.tmod_add_mul_tdiv t 86400
  obtain ⟨hgt, hlt⟩ := tmod_bounds t (by decide : (0 : ℤ) < 86400)
  split_ifs <;> constructor <;> omega

lemma gmtimeR_spec : (gmtimeR t).Valid ∧ (gmtimeR t).dayNumber = t / 86400 ∧
    (gmtimeR t).yday = daysBeforeMonth ((gmtimeR t).year + 1900) (gmtimeR t).mon.toNat +
      ((gmtimeR t).mday - 1) := by
  obtain ⟨hdays, hseconds⟩ := floor_days t
  obtain ⟨hpassed, hlength⟩ := skipYears_spec (t / 86400) 1970
  obtain ⟨hyear, h0, hlt⟩ := backYears_spec hlength
  obtain ⟨hmonth, hmon, hday, hmday⟩ := skipMonths_spec h0 (Nat.zero_le 12)
    (by rwa [daysBeforeMonth, zero_add])
  rw [daysBeforeMonth, zero_add] at hmonth
  have hzero : daysBeforeYear 1970 = 0 := rfl
  simp only [gmtimeR, hdays, hseconds, Tm.dayNumber, sub_add_cancel, Int.toNat_natCast,
    add_sub_cancel_right]
  refine ⟨?_, ?_, hmonth.symm⟩
  · constructor <;> simp only [sub_add_cancel, Int.toNat_natCast] <;> omega
  · rw [add_assoc, hmonth, hyear, hpassed, hzero, zero_add]

lemma mktime_of_gmtimeR : mktime (gmtimeR t) = t := by
  obtain ⟨-, hnumber, -⟩ := gmtimeR_spec t
  obtain ⟨-, hseconds⟩ := floor_days t
  rw [mktime, hnumber]
  simp only [gmtimeR, hseconds]
  omega

/-- `mktime` inverts `gmtime_r`. -/
theorem mktime_gmtimeR : (gmtimeR t).Valid ∧
    (gmtimeR t).yday = daysBeforeMonth ((gmtimeR t).year + 1900) (gmtimeR t).mon.toNat +
      ((gmtimeR t).mday - 1) ∧ mktime (gmtimeR t) = t := by
  obtain ⟨hvalid, -, hyday⟩ := gmtimeR_spec t
  exact ⟨hvalid, hyday, mktime_of_gmtimeR t⟩

lemma abs_daysBeforeYear_le (year : ℤ) : |daysBeforeYear year| ≤ 366 * |year - 1970| := by
  have hlength (y : ℤ) : yearLength y ≤ 366 := by
    rw [yearLength]
    split_ifs <;> decide
  have hup (n : ℕ) : 0 ≤ daysFrom1970 n ∧ daysFrom1970 n ≤ 366 * n := by
    induction n with
    | zero => exact ⟨le_rfl, le_rfl⟩
    | succ n ih =>
      have hpos := yearLength_pos (1970 + n)
      have hle := hlength (1970 + n)
      rw [daysFrom1970]
      push_cast
      omega
  have hdown (n : ℕ) : -(366 * n) ≤ daysDown year n ∧ daysDown year n ≤ 0 := by
    induction n with
    | zero => exact ⟨le_rfl, le_rfl⟩
    | succ n ih =>
      have hpos := yearLength_pos (year + n)
      have hle := hlength (year + n)
      rw [daysDown]
      push_cast
      omega
  rw [daysBeforeYear, abs_le]
  split_ifs with h
  · obtain ⟨hge, hle⟩ := hup (year - 1970).toNat
    rw [abs_of_nonneg (by omega)]
    omega
  · obtain ⟨hge, hle⟩ := hdown (1970 - year).toNat
    rw [abs_of_nonpos (by omega)]
    omega

/-- As long as the year fits in an `int`, the days and the seconds that `mktime` adds up are far from
the limits of their types. -/
theorem mktime_fits {tm : Tm} (h : tm.Valid) (hyear : |tm.year + 1900| ≤ 2 ^ 31) :
    |tm.dayNumber| < 2 ^ 40 ∧ |mktime tm| < 2 ^ 57 := by
  have hmonth (n : ℕ) : 0 ≤ daysBeforeMonth (tm.year + 1900) n ∧
      daysBeforeMonth (tm.year + 1900) n ≤ 31 * n := by
    induction n with
    | zero => exact ⟨le_rfl, le_rfl⟩
    | succ n ih =>
      obtain ⟨hpos, hle⟩ := daysInMonth_bounds (tm.year + 1900) n
      rw [daysBeforeMonth]
      push_cast
      omega
  obtain ⟨hmon, hmday, hhour, hmin, hsec⟩ := h
  have hdays := abs_le.mp (abs_daysBeforeYear_le (tm.year + 1900))
  have hdist : |tm.year + 1900 - 1970| ≤ 2 ^ 31 + 1970 :=
    (abs_sub _ _).trans (add_le_add hyear (by decide))
  have hmonths := hmonth tm.mon.toNat
  have hlast := (daysInMonth_bounds (tm.year + 1900) tm.mon.toNat).2
  rw [mktime, abs_lt, abs_lt, Tm.dayNumber]
  refine ⟨⟨?_, ?_⟩, ?_, ?_⟩ <;> omega

/-- The weekday is that of the date, unless the time is before 1970 and not at midnight. -/
theorem gmtimeR_wday_iff :
    (gmtimeR t).dayNumber = t / 86400 ∧
      ((gmtimeR t).wday = (4 + (gmtimeR t).dayNumber) % 7 ↔ 0 ≤ t ∨ 86400 ∣ t) := by
  obtain ⟨-, hnumber, -⟩ := gmtimeR_spec t
  refine ⟨hnumber, ?_⟩
  rw [hnumber]
  have hwday : (gmtimeR t).wday = (4 + t.tdiv 86400) % 7 := by
    have hdiv := Int.tmod_add_mul_tdiv (4 + t.tdiv 86400) 7
    obtain ⟨hgt, hlt⟩ := tmod_bounds (4 + t.tdiv 86400) (by decide : (0 : ℤ) < 7)
    simp only [gmtimeR]
    split_ifs <;> omega
  rw [hwday, Int.tdiv_eq_ediv]
  split_ifs with h
  · simp [h]
  · have hone : Int.sign 86400 = 1 := rfl
    rw [hone]
    refine iff_of_false ?_ h
    omega

/-- One second before 1970 is a Wednesday. -/
theorem gmtimeR_wday_wednesday :
    (4 + (gmtimeR (-1)).dayNumber) % 7 = 3 ∧ (gmtimeR (-1)).wday = 4 := by
  rw [(gmtimeR_spec (-1)).2.1]
  exact ⟨rfl, rfl⟩

/-! ### Dates are unique -/

lemma yearDays_lt {y y' : ℤ} (h : y < y') :
    daysBeforeYear y + yearLength y ≤ daysBeforeYear y' := by
  obtain ⟨n, rfl⟩ : ∃ n : ℕ, y' = y + 1 + n := ⟨(y' - (y + 1)).toNat, by omega⟩
  induction n with
  | zero => simp [yearDays_succ]
  | succ n ih =>
    rw [Nat.cast_succ, ← add_assoc, yearDays_succ (y + 1 + n)]
    exact (ih (by omega)).trans (le_add_of_nonneg_right (yearLength_pos _).le)

lemma monthDays_lt {m m' : ℕ} (year : ℤ) (h : m < m') :
    daysBeforeMonth year m + daysInMonth year m ≤ daysBeforeMonth year m' := by
  induction h with
  | refl => exact le_refl _
  | step _ ih =>
    rw [daysBeforeMonth]
    exact ih.trans (le_add_of_nonneg_right (daysInMonth_bounds _ _).1.le)

lemma Tm.Valid.yearDay {tm : Tm} (h : tm.Valid) :
    0 ≤ daysBeforeMonth (tm.year + 1900) tm.mon.toNat + (tm.mday - 1) ∧
      daysBeforeMonth (tm.year + 1900) tm.mon.toNat + (tm.mday - 1) < yearLength (tm.year + 1900) := by
  obtain ⟨hmon, hmday, -, -, -⟩ := h
  have hafter := monthDays_lt (tm.year + 1900) (show tm.mon.toNat < 12 by omega)
  rw [monthDays_twelve] at hafter
  have hbefore : 0 ≤ daysBeforeMonth (tm.year + 1900) tm.mon.toNat := by
    rcases Nat.eq_zero_or_pos tm.mon.toNat with h0 | h0
    · rw [h0]
      rfl
    · exact (daysInMonth_bounds _ 0).1.le.trans (by simpa [daysBeforeMonth] using monthDays_lt _ h0)
  omega

/-- A number lies in one of the intervals that follow each other. -/
lemma eq_of_blocks {α : Type*} [LinearOrder α] {f len : α → ℤ} {a b : α} {d e : ℤ}
    (hlt : ∀ {a b}, a < b → f a + len a ≤ f b) (hd : 0 ≤ d ∧ d < len a) (he : 0 ≤ e ∧ e < len b)
    (h : f a + d = f b + e) : a = b := by
  rcases lt_trichotomy a b with hab | hab | hab
  · have := hlt hab
    omega
  · exact hab
  · have := hlt hab
    omega

/-- Two valid dates and times of day with the same `mktime` are the same. -/
lemma Tm.Valid.unique {tm tm' : Tm} (h : tm.Valid) (h' : tm'.Valid) (heq : mktime tm = mktime tm') :
    tm.year = tm'.year ∧ tm.mon = tm'.mon ∧ tm.mday = tm'.mday ∧ tm.hour = tm'.hour ∧
      tm.min = tm'.min ∧ tm.sec = tm'.sec := by
  obtain ⟨hmon, hmday, hhour, hmin, hsec⟩ := id h
  obtain ⟨hmon', hmday', hhour', hmin', hsec'⟩ := id h'
  rw [mktime, mktime] at heq
  have hnumber : tm.dayNumber = tm'.dayNumber := by omega
  rw [Tm.dayNumber, Tm.dayNumber, add_assoc, add_assoc] at hnumber
  have hyear : tm.year + 1900 = tm'.year + 1900 :=
    eq_of_blocks yearDays_lt h.yearDay h'.yearDay hnumber
  rw [hyear] at hnumber hmday
  have hmonth : tm.mon.toNat = tm'.mon.toNat :=
    eq_of_blocks (monthDays_lt (tm'.year + 1900)) (d := tm.mday - 1) (e := tm'.mday - 1) (by omega)
      (by omega) (by omega)
  rw [hmonth] at hnumber
  omega

end Libc
