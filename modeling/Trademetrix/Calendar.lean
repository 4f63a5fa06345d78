import Mathlib.Data.Nat.Notation
import Mathlib.Tactic.Common

/-!
# The Gregorian calendar

Days are counted from 1 March of the year 0, a Wednesday, so that a leap day is
the last day of a year that begins in March.
-/

namespace Trademetrix

structure Day where
  index : ℕ
  deriving DecidableEq

namespace Day

instance lawfulKey : LawfulBEq (String × String × Day) := inferInstance

variable (d : Day)

def weekday : ℕ := (d.index + 3) % 7

def yearOfEra : ℕ :=
  let n := d.index % 146097
  (n - n / 1460 + n / 36524 - n / 146096) / 365

def dayOfYear : ℕ :=
  d.index % 146097 - (365 * d.yearOfEra + d.yearOfEra / 4 - d.yearOfEra / 100)

def monthIndex : ℕ := (5 * d.dayOfYear + 2) / 153

def month : ℕ := if d.monthIndex < 10 then d.monthIndex + 3 else d.monthIndex - 9

def dayOfMonth : ℕ := d.dayOfYear - (153 * d.monthIndex + 2) / 5 + 1

def year : ℕ := 400 * (d.index / 146097) + d.yearOfEra + if d.month ≤ 2 then 1 else 0

/-- `date.isoformat`, for years of four digits. -/
def isoText : String :=
  let two (n : ℕ) := (if n < 10 then "0" else "") ++ toString n
  toString d.year ++ "-" ++ two d.month ++ "-" ++ two d.dayOfMonth

-- 1 January 2000 was a Saturday
example : (⟨730425⟩ : Day).year = 2000 ∧ (⟨730425⟩ : Day).month = 1 ∧
    (⟨730425⟩ : Day).dayOfMonth = 1 ∧ (⟨730425⟩ : Day).weekday = 6 := by decide

end Day

/-- `datetime.isoformat` of a moment in UTC, in seconds since 1 January 1970. -/
def isoUtc (seconds : ℕ) : String :=
  let two (n : ℕ) := (if n < 10 then "0" else "") ++ toString n
  let day : Day := ⟨719468 + seconds / 86400⟩
  day.isoText ++ "T" ++ two (seconds % 86400 / 3600) ++ ":" ++ two (seconds % 3600 / 60) ++ ":" ++
    two (seconds % 60) ++ "+00:00"

example : isoUtc 946684800 = "2000-01-01T00:00:00+00:00" := by decide

end Trademetrix

/-!
# Months and years

A day is an era of 400 years, a year that begins in March, a month of it and the days
since the first of the month; its year, month and day of the month are read off these.
-/

namespace Trademetrix.Day

def yearStart (y : ℕ) : ℕ := 365 * y + y / 4 - y / 100

def yearLength (y : ℕ) : ℕ := if y % 4 = 3 ∧ (y % 100 ≠ 99 ∨ y = 399) then 366 else 365

def monthStart (m : ℕ) : ℕ := (153 * m + 2) / 5

def monthLength (y m : ℕ) : ℕ :=
  if m = 11 then yearLength y - 337 else monthStart (m + 1) - monthStart m

def ofMarch (e y m k : ℕ) : Day := ⟨146097 * e + yearStart y + monthStart m + k⟩

section Years

def eraYear (n : ℕ) : ℕ := (n - n / 1460 + n / 36524 - n / 146096) / 365

theorem eraYear_mono {n n' : ℕ} (h : n ≤ n') : eraYear n ≤ eraYear n' := by
  have hfour : n - n / 1460 ≤ n' - n' / 1460 := by omega
  have hcentury : n / 36524 - n / 146096 ≤ n' / 36524 - n' / 146096 := by omega
  have hsplit : ∀ n : ℕ, n - n / 1460 + n / 36524 - n / 146096 =
      (n - n / 1460) + (n / 36524 - n / 146096) := by
    intro n
    omega
  unfold eraYear
  rw [hsplit, hsplit]
  exact Nat.div_le_div_right (Nat.add_le_add hfour hcentury)

theorem eraYear_ends : ∀ y < 400,
    eraYear (yearStart y) = y ∧ eraYear (yearStart y + yearLength y - 1) = y := by decide +kernel

theorem yearLength_cases (y : ℕ) : yearLength y = 365 ∨ yearLength y = 366 := by
  unfold yearLength
  split
  · exact .inr rfl
  · exact .inl rfl

theorem eraYear_eq {y n : ℕ} (hy : y < 400) (hstart : yearStart y ≤ n)
    (hend : n < yearStart y + yearLength y) : eraYear n = y := by
  obtain ⟨hfirst, hlast⟩ := eraYear_ends y hy
  have hlow := eraYear_mono hstart
  have hhigh := eraYear_mono (show n ≤ yearStart y + yearLength y - 1 by omega)
  omega

theorem yearStart_succ {y : ℕ} (hy : y + 1 < 400) :
    yearStart (y + 1) = yearStart y + yearLength y := by
  unfold yearStart yearLength
  split <;> omega

theorem yearStart_le {y y' : ℕ} (h : y < y') (hy' : y' < 400) :
    yearStart y + yearLength y ≤ yearStart y' := by
  induction y' with
  | zero => exact absurd h (Nat.not_lt_zero y)
  | succ z ih =>
    rw [yearStart_succ hy']
    rcases Nat.lt_or_eq_of_le (Nat.le_of_lt_succ h) with hlt | rfl
    · exact Nat.le_trans (ih hlt (by omega)) (Nat.le_add_right _ _)
    · exact Nat.le_refl _

theorem yearEnd_le {y : ℕ} (hy : y < 400) : yearStart y + yearLength y ≤ 146097 := by
  have hcases := yearLength_cases y
  unfold yearStart
  unfold yearLength at hcases ⊢
  split <;> omega

theorem exists_year (n : ℕ) (hn : n < 146097) :
    ∃ y < 400, yearStart y ≤ n ∧ n < yearStart y + yearLength y := by
  induction n with
  | zero => exact ⟨0, by decide, by decide, by decide⟩
  | succ n ih =>
    obtain ⟨y, hy, hstart, hend⟩ := ih (by omega)
    by_cases hnext : n + 1 < yearStart y + yearLength y
    · exact ⟨y, hy, by omega, hnext⟩
    · have hlast : yearStart 399 + yearLength 399 = 146097 := by decide
      have hy' : y + 1 < 400 := by
        by_contra hge
        obtain rfl : y = 399 := by omega
        omega
      have hsucc := yearStart_succ hy'
      have hlength := yearLength_cases (y + 1)
      exact ⟨y + 1, hy', by omega, by omega⟩

end Years

section Parts

variable {e y m k : ℕ}

theorem monthLength_le (hm : m < 12) : monthStart m + monthLength y m ≤ yearLength y := by
  have hlength := yearLength_cases y
  unfold monthLength monthStart
  split <;> omega

theorem monthIndex_eq {n : ℕ} (hm : m < 12) (hstart : monthStart m ≤ n)
    (hend : n < monthStart m + monthLength y m) : (5 * n + 2) / 153 = m := by
  have hlength := yearLength_cases y
  unfold monthLength at hend
  unfold monthStart at hstart hend
  split at hend <;> omega

theorem exists_month {n : ℕ} (hn : n < yearLength y) :
    ∃ m < 12, monthStart m ≤ n ∧ n < monthStart m + monthLength y m := by
  have hlength := yearLength_cases y
  refine ⟨(5 * n + 2) / 153, by omega, ?_, ?_⟩
  · unfold monthStart
    omega
  · unfold monthLength monthStart
    split <;> omega

theorem exists_ofMarch (d : Day) :
    ∃ e y m k, y < 400 ∧ m < 12 ∧ k < monthLength y m ∧ d = ofMarch e y m k := by
  obtain ⟨y, hy, hstart, hend⟩ := exists_year (d.index % 146097) (by omega)
  obtain ⟨m, hm, hmonth, hmonth'⟩ :=
    exists_month (y := y) (n := d.index % 146097 - yearStart y) (by omega)
  refine ⟨d.index / 146097, y, m, d.index % 146097 - yearStart y - monthStart m, hy, hm, by omega, ?_⟩
  unfold ofMarch
  have hindex : d.index = 146097 * (d.index / 146097) + yearStart y + monthStart m +
      (d.index % 146097 - yearStart y - monthStart m) := by omega
  rw [← hindex]

theorem dayOfEra_ofMarch (hy : y < 400) (hm : m < 12) (hk : k < monthLength y m) :
    (ofMarch e y m k).index % 146097 = yearStart y + monthStart m + k ∧
      (ofMarch e y m k).index / 146097 = e := by
  have hlength := monthLength_le (y := y) hm
  have hyear := yearEnd_le hy
  unfold ofMarch
  dsimp only
  omega

theorem yearOfEra_ofMarch (hy : y < 400) (hm : m < 12) (hk : k < monthLength y m) :
    (ofMarch e y m k).yearOfEra = y := by
  have hlength := monthLength_le (y := y) hm
  have hera := (dayOfEra_ofMarch (e := e) hy hm hk).1
  have heq : (ofMarch e y m k).yearOfEra = eraYear ((ofMarch e y m k).index % 146097) := rfl
  rw [heq, hera]
  exact eraYear_eq hy (by omega) (by omega)

theorem dayOfYear_ofMarch (hy : y < 400) (hm : m < 12) (hk : k < monthLength y m) :
    (ofMarch e y m k).dayOfYear = monthStart m + k := by
  unfold dayOfYear
  rw [yearOfEra_ofMarch hy hm hk, (dayOfEra_ofMarch hy hm hk).1]
  unfold yearStart
  omega

theorem monthIndex_ofMarch (hy : y < 400) (hm : m < 12) (hk : k < monthLength y m) :
    (ofMarch e y m k).monthIndex = m := by
  unfold monthIndex
  rw [dayOfYear_ofMarch hy hm hk]
  exact monthIndex_eq (y := y) hm (by omega) (by omega)

theorem dayOfMonth_ofMarch (hy : y < 400) (hm : m < 12) (hk : k < monthLength y m) :
    (ofMarch e y m k).dayOfMonth = k + 1 := by
  unfold dayOfMonth
  rw [dayOfYear_ofMarch hy hm hk, monthIndex_ofMarch hy hm hk]
  unfold monthStart
  omega

theorem month_ofMarch (hy : y < 400) (hm : m < 12) (hk : k < monthLength y m) :
    (ofMarch e y m k).month = if m < 10 then m + 3 else m - 9 := by
  unfold month
  rw [monthIndex_ofMarch hy hm hk]

theorem year_ofMarch (hy : y < 400) (hm : m < 12) (hk : k < monthLength y m) :
    (ofMarch e y m k).year = 400 * e + y + if 10 ≤ m then 1 else 0 := by
  unfold year
  rw [yearOfEra_ofMarch hy hm hk, (dayOfEra_ofMarch hy hm hk).2, month_ofMarch hy hm hk]
  by_cases hten : m < 10
  · rw [if_pos hten, if_neg (by omega), if_neg (by omega)]
  · rw [if_neg hten, if_pos (by omega), if_pos (by omega)]

def januaryFirst (year : ℕ) : ℕ :=
  146097 * ((year - 1) / 400) + yearStart ((year - 1) % 400) + 306

theorem le_year_iff (d : Day) {year : ℕ} (hyear : 1 ≤ year) :
    year ≤ d.year ↔ januaryFirst year ≤ d.index := by
  obtain ⟨e, y, m, k, hy, hm, hk, rfl⟩ := exists_ofMarch d
  have hlength := monthLength_le (y := y) hm
  have hend := yearEnd_le hy
  have hmonths : 10 ≤ m ↔ 306 ≤ monthStart m + k := by
    unfold monthLength at hk
    unfold monthStart at hk ⊢
    split at hk <;> omega
  have hcases := yearLength_cases y
  rw [year_ofMarch hy hm hk]
  unfold januaryFirst ofMarch
  dsimp only
  have hrest : (year - 1) % 400 < 400 := Nat.mod_lt _ (by decide)
  rcases Nat.lt_trichotomy e ((year - 1) / 400) with hera | hera | hera
  · split <;> omega
  · rcases Nat.lt_trichotomy y ((year - 1) % 400) with hlt | heq | hgt
    · have hstart := yearStart_le hlt hrest
      split <;> omega
    · rw [← hera, ← heq]
      split <;> omega
    · have hstart := yearStart_le hgt hy
      have hcases' := yearLength_cases ((year - 1) % 400)
      rw [← hera]
      split <;> omega
  · have hend' := yearEnd_le hrest
    have hcases' := yearLength_cases ((year - 1) % 400)
    split <;> omega

theorem januaryFirst_succ {year : ℕ} (hyear : 1 ≤ year) :
    januaryFirst year + 365 ≤ januaryFirst (year + 1) := by
  unfold januaryFirst yearStart
  omega

theorem year_add {d : Day} {j : ℕ} (hyear : 1 ≤ d.year) (hj : j ≤ 365) :
    d.year ≤ (⟨d.index + j⟩ : Day).year ∧ (⟨d.index + j⟩ : Day).year ≤ d.year + 1 := by
  have hself := (le_year_iff d hyear).mp (Nat.le_refl _)
  have hnext : d.index < januaryFirst (d.year + 1) := by
    by_contra hge
    have hle := (le_year_iff d (Nat.succ_pos _)).mpr (Nat.not_lt.mp hge)
    omega
  constructor
  · rw [le_year_iff _ hyear]
    dsimp only
    omega
  · by_contra hlt
    have hge : d.year + 1 + 1 ≤ (⟨d.index + j⟩ : Day).year := by omega
    have hindex := (le_year_iff _ (by omega)).mp hge
    have hsucc := januaryFirst_succ (show 1 ≤ d.year + 1 by omega)
    dsimp only at hindex
    omega

theorem month_bounds (d : Day) : 1 ≤ d.month ∧ d.month ≤ 12 := by
  obtain ⟨e, y, m, k, hy, hm, hk, rfl⟩ := exists_ofMarch d
  rw [month_ofMarch hy hm hk]
  split <;> omega

theorem dayOfMonth_pos (d : Day) : 1 ≤ d.dayOfMonth := by
  obtain ⟨e, y, m, k, hy, hm, hk, rfl⟩ := exists_ofMarch d
  rw [dayOfMonth_ofMarch hy hm hk]
  exact Nat.succ_pos k

def daysOfMonth (d : Day) : ℕ := monthLength d.yearOfEra d.monthIndex

theorem daysOfMonth_ofMarch (hy : y < 400) (hm : m < 12) (hk : k < monthLength y m) :
    (ofMarch e y m k).daysOfMonth = monthLength y m := by
  unfold daysOfMonth
  rw [yearOfEra_ofMarch hy hm hk, monthIndex_ofMarch hy hm hk]

theorem dayOfMonth_le (d : Day) : d.dayOfMonth ≤ d.daysOfMonth := by
  obtain ⟨e, y, m, k, hy, hm, hk, rfl⟩ := exists_ofMarch d
  rw [dayOfMonth_ofMarch hy hm hk, daysOfMonth_ofMarch hy hm hk]
  exact hk

theorem monthLength_bounds (y m : ℕ) : 28 ≤ monthLength y m ∧ monthLength y m ≤ 31 := by
  have hlength := yearLength_cases y
  unfold monthLength monthStart
  split <;> omega

theorem daysOfMonth_bounds (d : Day) : 28 ≤ d.daysOfMonth ∧ d.daysOfMonth ≤ 31 := by
  obtain ⟨e, y, m, k, hy, hm, hk, rfl⟩ := exists_ofMarch d
  rw [daysOfMonth_ofMarch hy hm hk]
  exact monthLength_bounds y m

structure SameMonth (a b : Day) : Prop where
  year : a.year = b.year
  month : a.month = b.month

theorem sameMonth_add {d : Day} {j : ℕ} (h : d.dayOfMonth + j ≤ d.daysOfMonth) :
    SameMonth ⟨d.index + j⟩ d ∧ (⟨d.index + j⟩ : Day).dayOfMonth = d.dayOfMonth + j ∧
      (⟨d.index + j⟩ : Day).daysOfMonth = d.daysOfMonth := by
  obtain ⟨e, y, m, k, hy, hm, hk, rfl⟩ := exists_ofMarch d
  rw [dayOfMonth_ofMarch hy hm hk, daysOfMonth_ofMarch hy hm hk] at h
  have hk' : k + j < monthLength y m := by omega
  have hadd : (⟨(ofMarch e y m k).index + j⟩ : Day) = ofMarch e y m (k + j) := by
    unfold ofMarch
    rw [Nat.add_assoc]
  rw [hadd]
  refine ⟨⟨?_, ?_⟩, ?_, ?_⟩
  · rw [year_ofMarch hy hm hk, year_ofMarch hy hm hk']
  · rw [month_ofMarch hy hm hk, month_ofMarch hy hm hk']
  · rw [dayOfMonth_ofMarch hy hm hk, dayOfMonth_ofMarch hy hm hk']
    omega
  · rw [daysOfMonth_ofMarch hy hm hk, daysOfMonth_ofMarch hy hm hk']

theorem sameMonth_sub {d : Day} {j : ℕ} (h : j < d.dayOfMonth) :
    SameMonth ⟨d.index - j⟩ d ∧ (⟨d.index - j⟩ : Day).dayOfMonth = d.dayOfMonth - j ∧ j ≤ d.index := by
  obtain ⟨e, y, m, k, hy, hm, hk, rfl⟩ := exists_ofMarch d
  rw [dayOfMonth_ofMarch hy hm hk] at h
  have hk' : k - j < monthLength y m := by omega
  have hsub : (⟨(ofMarch e y m k).index - j⟩ : Day) = ofMarch e y m (k - j) := by
    unfold ofMarch
    rw [Nat.add_sub_assoc (by omega)]
  have hindex : k ≤ (ofMarch e y m k).index := Nat.le_add_left _ _
  rw [hsub]
  refine ⟨⟨?_, ?_⟩, ?_, by omega⟩
  · rw [year_ofMarch hy hm hk, year_ofMarch hy hm hk']
  · rw [month_ofMarch hy hm hk, month_ofMarch hy hm hk']
  · rw [dayOfMonth_ofMarch hy hm hk, dayOfMonth_ofMarch hy hm hk']
    omega

def nextMonth (d : Day) : ℕ × ℕ := if d.month < 12 then (d.year, d.month + 1) else (d.year + 1, 1)

theorem last_month (y : ℕ) : monthStart 11 + monthLength y 11 = yearLength y := by
  have hcases := yearLength_cases y
  unfold monthLength monthStart
  rw [if_pos rfl]
  omega

theorem exists_monthStart_next (e : ℕ) (hy : y < 400) (hm : m < 12) : ∃ e' y' m', y' < 400 ∧ m' < 12 ∧
    146097 * e + yearStart y + monthStart m + monthLength y m =
      146097 * e' + yearStart y' + monthStart m' ∧
    (400 * e' + y' + if 10 ≤ m' then 1 else 0) =
      (400 * e + y + if 10 ≤ m then 1 else 0) + (if m = 9 then 1 else 0) ∧
    (if m' < 10 then m' + 3 else m' - 9) =
      if m = 9 then 1 else (if m < 10 then m + 3 else m - 9) + 1 := by
  by_cases hlast : m = 11
  · have hend := last_month y
    by_cases hera : y = 399
    · refine ⟨e + 1, 0, 0, by omega, by omega, ?_, ?_, ?_⟩
      · have hfull : yearStart 399 + yearLength 399 = 146097 := by decide
        have hzero : yearStart 0 + monthStart 0 = 0 := by decide
        rw [hera] at hend ⊢
        rw [hlast]
        omega
      · simp [hlast, hera]
        omega
      · simp [hlast]
    · have hsucc := yearStart_succ (show y + 1 < 400 by omega)
      have hzero : monthStart 0 = 0 := by decide
      refine ⟨e, y + 1, 0, by omega, by omega, ?_, ?_, ?_⟩
      · rw [hlast]
        omega
      · simp [hlast]
        omega
      · simp [hlast]
  · refine ⟨e, y, m + 1, hy, by omega, ?_, ?_, ?_⟩
    · unfold monthLength monthStart
      rw [if_neg hlast]
      omega
    · split <;> split <;> split <;> omega
    · split <;> split <;> try split
      all_goals omega

theorem nextMonth_add {d : Day} {j : ℕ} (hj : 1 ≤ j) (hj' : j ≤ 28) :
    (⟨d.index + (d.daysOfMonth - d.dayOfMonth) + j⟩ : Day).dayOfMonth = j ∧
      ((⟨d.index + (d.daysOfMonth - d.dayOfMonth) + j⟩ : Day).year,
        (⟨d.index + (d.daysOfMonth - d.dayOfMonth) + j⟩ : Day).month) = d.nextMonth := by
  obtain ⟨e, y, m, k, hy, hm, hk, rfl⟩ := exists_ofMarch d
  obtain ⟨e', y', m', hy', hm', hstart, hyear, hmonth⟩ := exists_monthStart_next e hy hm
  have hadd : (⟨(ofMarch e y m k).index + ((ofMarch e y m k).daysOfMonth -
      (ofMarch e y m k).dayOfMonth) + j⟩ : Day) = ofMarch e' y' m' (j - 1) := by
    rw [daysOfMonth_ofMarch hy hm hk, dayOfMonth_ofMarch hy hm hk]
    unfold ofMarch
    have hindex : 146097 * e + yearStart y + monthStart m + k + (monthLength y m - (k + 1)) + j =
        146097 * e' + yearStart y' + monthStart m' + (j - 1) := by omega
    rw [hindex]
  have hk' : j - 1 < monthLength y' m' := by
    have hshort := (monthLength_bounds y' m').1
    omega
  rw [hadd]
  constructor
  · rw [dayOfMonth_ofMarch hy' hm' hk']
    omega
  · unfold nextMonth
    rw [year_ofMarch hy' hm' hk', month_ofMarch hy' hm' hk', year_ofMarch hy hm hk,
      month_ofMarch hy hm hk, hyear, hmonth]
    by_cases hdecember : m = 9
    · simp [hdecember]
    · have hlt : (if m < 10 then m + 3 else m - 9) < 12 := by
        split <;> omega
      simp [hdecember, hlt]

theorem SameMonth.index {a b : Day} (h : SameMonth a b) :
    a.index + b.dayOfMonth = b.index + a.dayOfMonth := by
  obtain ⟨e, y, m, k, hy, hm, hk, rfl⟩ := exists_ofMarch a
  obtain ⟨e', y', m', k', hy', hm', hk', rfl⟩ := exists_ofMarch b
  have hyear := h.year
  have hmonth := h.month
  rw [year_ofMarch hy hm hk, year_ofMarch hy' hm' hk'] at hyear
  rw [month_ofMarch hy hm hk, month_ofMarch hy' hm' hk'] at hmonth
  have hm'' : m = m' := by
    split at hmonth <;> split at hmonth <;> omega
  subst hm''
  have hy'' : 400 * e + y = 400 * e' + y' := by omega
  obtain rfl : e = e' := by omega
  obtain rfl : y = y' := by omega
  rw [dayOfMonth_ofMarch hy hm hk, dayOfMonth_ofMarch hy' hm hk']
  unfold ofMarch
  dsimp only
  omega

end Parts

end Trademetrix.Day
