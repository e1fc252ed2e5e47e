import Mathlib

/-!
This module contains the two conversions of a date to the seconds since 1970.
-/

namespace Time

def mktimeMarch (year mon : UInt32) : UInt32 × UInt32 :=
  let mon := mon - 2
  if mon.toInt32 ≤ 0 then (year - 1, mon + 12) else (year, mon)

def mktimeDays (year mon day : UInt32) : UInt64 :=
  (year / 4 - year / 100 + year / 400 + 367 * mon / 12 + day).toUInt64
    + (year * 365).toUInt64 - 719499

def mktime (year mon day hour min sec : UInt32) : UInt64 :=
  let (year, mon) := mktimeMarch year mon
  ((mktimeDays year mon day * 24 + hour.toUInt64) * 60 + min.toUInt64) * 60 + sec.toUInt64

def unixMarch (y m : UInt32) : UInt32 × UInt32 :=
  if m ≤ 2 then (y - 1, m + 12) else (y, m)

def unixDays (y m d : UInt32) : UInt32 :=
  365 * y + y / 4 - y / 100 + y / 400 + (153 * m - 457) / 5 + d - 719469

def toUnixTime (year month day hour minute second : UInt32) : UInt32 :=
  let (y, m) := unixMarch year month
  unixDays y m day * 24 * 3600 + hour * 3600 + minute * 60 + second

def leap (y : Nat) : Nat := if y % 4 = 0 ∧ y % 100 ≠ 0 ∨ y % 400 = 0 then 1 else 0

def monthDays (y m : Nat) : Nat :=
  match m with
  | 2 => 28 + leap y
  | 4 | 6 | 9 | 11 => 30
  | _ => 31

def monthsDays (y : Nat) : Nat → Nat
  | 0 => 0
  | m + 1 => monthsDays y m + monthDays y (m + 1)

/--
The days of the `n` years from 1970 on.
-/
def yearsDays : Nat → Nat
  | 0 => 0
  | n + 1 => yearsDays n + monthsDays (1970 + n) 12

structure Date where
  year : Nat
  month : Nat
  day : Nat
  hour : Nat
  minute : Nat
  second : Nat
  year_mem : 1970 ≤ year ∧ year ≤ 2 ^ 20
  month_mem : 1 ≤ month ∧ month ≤ 12
  day_mem : 1 ≤ day ∧ day ≤ monthDays year month
  hour_lt : hour < 24
  minute_lt : minute < 60
  second_lt : second < 60

def Date.days (t : Date) : Nat :=
  yearsDays (t.year - 1970) + monthsDays t.year (t.month - 1) + (t.day - 1)

def Date.seconds (t : Date) : Nat := ((t.days * 24 + t.hour) * 60 + t.minute) * 60 + t.second

theorem leap_eq {y : Nat} (hy : 0 < y)
    : y / 4 + y / 400 + (y - 1) / 100 = (y - 1) / 4 + (y - 1) / 400 + y / 100 + leap y := by
  unfold leap
  split <;> omega

theorem yearDays_eq (y : Nat) : monthsDays y 12 = 365 + leap y := by
  simp only [monthsDays, monthDays]
  omega

theorem yearsDays_eq (n : Nat) {y : Nat} (hy : y = 1969 + n)
    : yearsDays n + 719162 + y / 100 = 365 * y + y / 4 + y / 400 := by
  induction n generalizing y with
  | zero => simp only [hy, yearsDays]
  | succ n ih =>
    have hleap := leap_eq (y := y) (by omega)
    have ih := ih (y := y - 1) (by omega)
    have hdays : yearsDays (n + 1) = yearsDays n + 365 + leap y := by
      have hyear : 1970 + n = y := by omega
      simp only [yearsDays, hyear, yearDays_eq, Nat.add_assoc]
    -- the quotients are only added up here
    generalize y / 4 = a at *
    generalize y / 100 = b at *
    generalize y / 400 = c at *
    omega

theorem monthsDays_eq (y : Nat) {m : Nat} (hpos : 1 ≤ m) (hle : m ≤ 12)
    : monthsDays y (m - 1) = if m ≤ 2 then 31 * (m - 1) else 59 + leap y + (153 * m - 457) / 5 := by
  interval_cases m <;> simp [monthsDays, monthDays] <;> omega

theorem march_eq {m : Nat} (hpos : 3 ≤ m) (hle : m ≤ 14)
    : 367 * (m - 2) / 12 = 30 + (153 * m - 457) / 5 := by
  interval_cases m <;> rfl

structure March (y m d n : Nat) : Prop where
  year : 1969 ≤ y ∧ y ≤ 2 ^ 20
  month : 3 ≤ m ∧ m ≤ 14
  day : d ≤ 31
  quotient : y / 100 ≤ y / 4 ∧ y / 4 ≤ 2 ^ 18 ∧ y / 400 ≤ 2 ^ 18 ∧ (153 * m - 457) / 5 ≤ 400
  days : n + 719469 + y / 100 = 365 * y + y / 4 + y / 400 + (153 * m - 457) / 5 + d

namespace Date

variable (t : Date)

def marchYear : Nat := if t.month ≤ 2 then t.year - 1 else t.year

def marchMonth : Nat := if t.month ≤ 2 then t.month + 12 else t.month

theorem day_le : t.day ≤ 31 := by
  have hday := t.day_mem.2
  have hleap : leap t.year ≤ 1 := by
    unfold leap
    split <;> decide
  unfold monthDays at hday
  split at hday <;> omega

theorem days_eq
    : t.days + 719469 + t.marchYear / 100
      = 365 * t.marchYear + t.marchYear / 4 + t.marchYear / 400
      + (153 * t.marchMonth - 457) / 5 + t.day := by
  have hyear := t.year_mem
  have hday := t.day_mem.1
  have hmonth := t.month_mem
  have hyears := yearsDays_eq (t.year - 1970) (y := t.year - 1) (by omega)
  have hmonths := monthsDays_eq t.year hmonth.1 hmonth.2
  have hleap := leap_eq (y := t.year) (by omega)
  generalize hdays : t.days = days
  unfold Date.days at hdays
  unfold marchYear marchMonth
  split at hmonths
  next h =>
    rw [if_pos h, if_pos h]
    generalize (t.year - 1) / 4 = a at *
    generalize (t.year - 1) / 100 = b at *
    generalize (t.year - 1) / 400 = c at *
    omega
  next h =>
    rw [if_neg h, if_neg h]
    generalize t.year / 4 = a at *
    generalize t.year / 100 = b at *
    generalize t.year / 400 = c at *
    omega

theorem march : March t.marchYear t.marchMonth t.day t.days := by
  have hyear := t.year_mem
  have hmonth := t.month_mem
  have hmem : (1969 ≤ t.marchYear ∧ t.marchYear ≤ 2 ^ 20) ∧ 3 ≤ t.marchMonth
      ∧ t.marchMonth ≤ 14 := by
    unfold marchYear marchMonth
    split <;> omega
  have hle := Nat.div_le_div_left (a := t.marchYear) (show 4 ≤ 100 by decide) (by decide)
  exact ⟨hmem.1, hmem.2, t.day_le, ⟨hle, by omega, by omega, by omega⟩, t.days_eq⟩

end Date

theorem sub_mod_eq {a b n : Nat} (hle : b ≤ a) (hlt : a < n) : (n - b + a) % n = a - b := by
  rw [show n - b + a = n + (a - b) by omega, Nat.add_mod_left, Nat.mod_eq_of_lt (by omega)]

theorem mktimeMarch_eq (t : Date)
    : mktimeMarch (.ofNat t.year) (.ofNat t.month)
      = (.ofNat t.marchYear, .ofNat (t.marchMonth - 2)) := by
  have hyear := t.year_mem
  have hmonth := t.month_mem
  have hle : (UInt32.ofNat t.month - 2).toInt32 ≤ 0 ↔ t.month ≤ 2 := by
    generalize t.month = m at hmonth
    obtain ⟨hpos, hle⟩ := hmonth
    interval_cases m <;> decide
  simp only [mktimeMarch, if_congr hle rfl rfl, Date.marchYear, Date.marchMonth]
  split
  next =>
    rw [UInt32.ofNat_sub (by omega)]
    obtain heq | heq : t.month = 1 ∨ t.month = 2 := by omega
    . rw [heq]
      rfl
    . rw [heq]
      rfl
  next => rw [UInt32.ofNat_sub (by omega)]; rfl

theorem unixMarch_eq (t : Date)
    : unixMarch (.ofNat t.year) (.ofNat t.month) = (.ofNat t.marchYear, .ofNat t.marchMonth) := by
  have hyear := t.year_mem
  have hmonth := t.month_mem
  have hle : UInt32.ofNat t.month ≤ 2 ↔ t.month ≤ 2 := by
    rw [UInt32.le_iff_toNat_le, UInt32.toNat_ofNat', Nat.mod_eq_of_lt (by omega)]
    rfl
  simp only [unixMarch, if_congr hle rfl rfl, Date.marchYear, Date.marchMonth]
  split
  next => rw [UInt32.ofNat_sub (by omega), UInt32.ofNat_add]; rfl
  next => rfl

section

variable {y m d n : Nat} (h : March y m d n)
include h

theorem mktimeDays_eq : (mktimeDays (.ofNat y) (.ofNat (m - 2)) (.ofNat d)).toNat = n := by
  obtain ⟨hyear, hmonth, hday, hquotient, hdays⟩ := h
  have hmonths := march_eq hmonth.1 hmonth.2
  simp only [mktimeDays, UInt64.toNat_add, UInt64.toNat_sub, UInt64.toNat_ofNat,
    UInt32.toNat_toUInt64,
    UInt32.toNat_add, UInt32.toNat_sub, UInt32.toNat_mul, UInt32.toNat_div, UInt32.toNat_ofNat',
    UInt32.toNat_ofNat]
  rw [Nat.mod_eq_of_lt (a := y) (by omega), Nat.mod_eq_of_lt (a := m - 2) (by omega)]
  simp only [Nat.reducePow, Nat.reduceMod]
  rw [Nat.mod_eq_of_lt (a := 367 * (m - 2)) (by omega), hmonths]
  generalize (153 * m - 457) / 5 = f at *
  generalize y / 4 = a at *
  generalize y / 100 = b at *
  generalize y / 400 = c at *
  simp (disch := omega) only [sub_mod_eq, Nat.mod_eq_of_lt]
  omega

theorem unixDays_eq : (unixDays (.ofNat y) (.ofNat m) (.ofNat d)).toNat = n := by
  obtain ⟨hyear, hmonth, hday, hquotient, hdays⟩ := h
  simp only [unixDays, UInt32.toNat_add, UInt32.toNat_sub, UInt32.toNat_mul, UInt32.toNat_div,
    UInt32.toNat_ofNat', UInt32.toNat_ofNat]
  rw [Nat.mod_eq_of_lt (a := y) (by omega), Nat.mod_eq_of_lt (a := m) (by omega)]
  simp only [Nat.reducePow, Nat.reduceMod]
  rw [Nat.mod_eq_of_lt (a := 153 * m) (by omega),
    sub_mod_eq (a := 153 * m) (b := 457) (by omega) (by omega)]
  generalize (153 * m - 457) / 5 = f at *
  generalize y / 4 = a at *
  generalize y / 100 = b at *
  generalize y / 400 = c at *
  simp (disch := omega) only [sub_mod_eq, Nat.mod_eq_of_lt]
  omega

end

/--
Both conversions follow the calendar, the second one up to the width of its result.
-/
theorem conversions_eq (t : Date)
    : (mktime (.ofNat t.year) (.ofNat t.month) (.ofNat t.day) (.ofNat t.hour) (.ofNat t.minute)
        (.ofNat t.second)).toNat = t.seconds
      ∧ (toUnixTime (.ofNat t.year) (.ofNat t.month) (.ofNat t.day)
        (.ofNat t.hour) (.ofNat t.minute)
        (.ofNat t.second)).toNat = t.seconds % 2 ^ 32 := by
  have hmarch := t.march
  have hdays : t.days < 2 ^ 29 := by
    obtain ⟨hyear, hmonth, hday, hquotient, hdays⟩ := hmarch
    omega
  have hhour := t.hour_lt
  have hminute := t.minute_lt
  have hsecond := t.second_lt
  unfold mktime toUnixTime Date.seconds
  rw [mktimeMarch_eq, unixMarch_eq]
  constructor
  . simp only [UInt64.toNat_add, UInt64.toNat_mul, UInt64.toNat_ofNat, UInt32.toNat_toUInt64,
      UInt32.toNat_ofNat', mktimeDays_eq hmarch, Nat.reducePow, Nat.reduceMod]
    simp (disch := omega) only [Nat.mod_eq_of_lt]
  . simp only [UInt32.toNat_add, UInt32.toNat_mul, UInt32.toNat_ofNat', UInt32.toNat_ofNat,
      unixDays_eq hmarch]
    omega

def leapDay : Date where
  year := 2024
  month := 2
  day := 29
  hour := 12
  minute := 30
  second := 15
  year_mem := by decide
  month_mem := by decide
  day_mem := by decide
  hour_lt := by decide
  minute_lt := by decide
  second_lt := by decide

example : leapDay.seconds = 1709209815 ∧ mktime 2024 2 29 12 30 15 = 1709209815 := by decide

end Time
