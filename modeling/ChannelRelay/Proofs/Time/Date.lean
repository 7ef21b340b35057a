import ChannelRelay.Time.Date
import Mathlib.Tactic.IntervalCases

/-!
# Dates and day numbers

Every day has a date that exists, which is the date of no other day (`ofDayNumber_spec`).  The
dates with a year of four digits are those of an interval of days (`inYears_ofDayNumber_iff`).

Days are told apart by a year that begins in March, a month of this year counted from 0, and a day
of the month counted from 1 (`ofMarch`).  A year of this kind begins `yearStart` days after 1 March
of year 0 and ends with the leap day, if there is one (`yearStart_succ`).
-/

namespace ChannelRelay.Date

variable {year later month day : Int}

/-! ## Years that begin in March -/

/-- The days from 1 March of year 0 to 1 March of a year. -/
def yearStart (year : Int) : Int := 365 * year + year / 4 - year / 100 + year / 400

/-- The days from 1 March to the first day of a month. -/
def monthStart (month : Int) : Int := (153 * month + 2) / 5

theorem isLeap_iff :
    isLeap year = true ↔ year % 4 = 0 ∧ (year % 100 ≠ 0 ∨ year % 400 = 0) := by
  simp [isLeap]

theorem yearStart_le (h : year ≤ later) : yearStart year ≤ yearStart later := by
  unfold yearStart
  omega

/-- A year ends with the February of the next civil year. -/
theorem yearStart_succ (year : Int) :
    yearStart (year + 1) = yearStart year + if isLeap (year + 1) then 366 else 365 := by
  unfold yearStart
  split
  · rename_i hleap
    rw [isLeap_iff] at hleap
    omega
  · rename_i hcommon
    rw [isLeap_iff] at hcommon
    omega

/-! ## The year of a day -/

/-- The place of a day in its era: a century, a group of four years, a year, and a day.  The last
century, group and year are longer by the leap day that ends the era. -/
structure Place (dayOfEra century group year day : Int) : Prop where
  century_nonneg : 0 ≤ century
  century_le : century ≤ 3
  group_nonneg : 0 ≤ group
  group_le : group ≤ 24
  year_nonneg : 0 ≤ year
  year_le : year ≤ 3
  day_nonneg : 0 ≤ day
  day_le : day ≤ 364 ∨ day = 365 ∧ year = 3 ∧ (group ≠ 24 ∨ century = 3)
  eq : dayOfEra = 36524 * century + 1461 * group + 365 * year + day

theorem exists_place {dayOfEra : Int} (hnonneg : 0 ≤ dayOfEra) (hlt : dayOfEra < eraDays) :
    ∃ century group year day, Place dayOfEra century group year day := by
  unfold eraDays at hlt
  obtain ⟨century, inCentury, hc, hc', hcentury, hdays, hdays'⟩ :
      ∃ century inCentury : Int, 0 ≤ century ∧ century ≤ 3 ∧
        dayOfEra = 36524 * century + inCentury ∧ 0 ≤ inCentury ∧
        (inCentury < 36524 ∨ inCentury = 36524 ∧ century = 3) :=
    ⟨min (dayOfEra / 36524) 3, dayOfEra - 36524 * min (dayOfEra / 36524) 3,
      by omega, by omega, by omega, by omega, by omega⟩
  obtain ⟨group, inGroup, hg, hg', hgroup, hrest, hrest', hlast⟩ :
      ∃ group inGroup : Int, 0 ≤ group ∧ group ≤ 24 ∧ inCentury = 1461 * group + inGroup ∧
        0 ≤ inGroup ∧ inGroup ≤ 1460 ∧ (inGroup = 1460 → group ≠ 24 ∨ century = 3) :=
    ⟨inCentury / 1461, inCentury % 1461,
      by omega, by omega, by omega, by omega, by omega, by omega⟩
  refine ⟨century, group, min (inGroup / 365) 3, inGroup - 365 * min (inGroup / 365) 3,
    hc, hc', hg, hg', ?_, ?_, ?_, ?_, ?_⟩
  all_goals omega

section Place

variable {dayOfEra century group : Int}

/-- Shortened by the leap days before it, a day tells its year by a division. -/
theorem Place.yearOfEra_eq (h : Place dayOfEra century group year day) :
    (dayOfEra - dayOfEra / 1460 + dayOfEra / 36524 - dayOfEra / 146096) / 365 =
      100 * century + 4 * group + year := by
  obtain ⟨hc, hc', hg, hg', hy, hy', hd, hd', hplace⟩ := h
  by_cases hend : dayOfEra = 146096
  · subst hend
    omega
  · have hera : dayOfEra / 146096 = 0 := by omega
    have hcentury : dayOfEra / 36524 = century := by omega
    -- The quotient by 1460 runs ahead of the groups by a day in each of them.
    by_cases hahead : 24 * century + group + 365 * year + day < 1460
    · have hgroup : dayOfEra / 1460 = 25 * century + group := by omega
      omega
    · have hgroup : dayOfEra / 1460 = 25 * century + group + 1 := by omega
      omega

theorem Place.yearStart_le_lt (h : Place dayOfEra century group year day) :
    yearStart (100 * century + 4 * group + year) ≤ dayOfEra ∧
      dayOfEra < yearStart (100 * century + 4 * group + year + 1) := by
  obtain ⟨hc, hc', hg, hg', hy, hy', hd, hd', hplace⟩ := h
  unfold yearStart
  omega

end Place

/-- Every era has the same days. -/
theorem yearStart_era (era year : Int) :
    yearStart (era * 400 + year) = era * eraDays + yearStart year := by
  unfold yearStart eraDays
  omega

/-- The year of a day after 1 March of year 0. -/
def yearOf (day : Int) : Int :=
  let dayOfEra := day % eraDays
  day / eraDays * 400 +
    (dayOfEra - dayOfEra / 1460 + dayOfEra / 36524 - dayOfEra / 146096) / 365

theorem yearStart_yearOf (day : Int) :
    yearStart (yearOf day) ≤ day ∧ day < yearStart (yearOf day + 1) := by
  have hera : day = day / eraDays * eraDays + day % eraDays := by
    rw [Int.mul_comm, Int.mul_ediv_add_emod]
  obtain ⟨century, group, year, dayOfYear, hplace⟩ :=
    exists_place (Int.emod_nonneg day (by decide)) (Int.emod_lt_of_pos day (by decide))
  have hbounds := hplace.yearStart_le_lt
  rw [yearOf, hplace.yearOfEra_eq, yearStart_era, Int.add_assoc _ _ 1, yearStart_era]
  omega

/-! ## The months of a year -/

/-- The date of a day of a month. -/
def ofMarch (year month day : Int) : Date :=
  if month < 10 then ⟨year, (month + 3).toNat, day.toNat⟩
  else ⟨year + 1, (month - 9).toNat, day.toNat⟩

/-- A date exists if its day comes before the next month, and before the next year. -/
theorem isValid_ofMarch_iff (hmonth : 0 ≤ month) (hmonth' : month ≤ 11) (hday : 1 ≤ day) :
    (ofMarch year month day).isValid = true ↔
      monthStart month + day ≤ monthStart (month + 1) ∧
        yearStart year + monthStart month + day ≤ yearStart (year + 1) := by
  rw [yearStart_succ]
  cases hleap : isLeap (year + 1) <;> interval_cases month <;>
    simp [ofMarch, isValid, daysIn, monthStart, hleap] <;> omega

theorem dayNumber_ofMarch (hmonth : 0 ≤ month) (hmonth' : month ≤ 11) (hday : 1 ≤ day) :
    (ofMarch year month day).dayNumber =
      yearStart year + monthStart month + day - 1 - epochOffset := by
  have hyear : year / 400 * eraDays +
      (year % 400 * 365 + year % 400 / 4 - year % 400 / 100) = yearStart year := by
    unfold yearStart eraDays
    omega
  interval_cases month <;> simp [ofMarch, dayNumber, monthStart] <;> omega

/-- The month of a day of a year. -/
def monthOf (day : Int) : Int := (5 * day + 2) / 153

theorem monthStart_monthOf (day : Int) :
    monthStart (monthOf day) ≤ day ∧ day < monthStart (monthOf day + 1) := by
  unfold monthStart monthOf
  omega

/-! ## Dates and days -/

/-- No month is longer than 31 days. -/
theorem daysIn_le (year : Int) (month : Nat) : daysIn year month ≤ 31 := by
  unfold daysIn
  split_ifs <;> decide

/-- The date of a day is that of its year, its month and its day of the month. -/
theorem ofDayNumber_eq (n : Int) :
    let year := yearOf (n + epochOffset)
    let dayOfYear := n + epochOffset - yearStart year
    ofDayNumber n =
      ofMarch year (monthOf dayOfYear) (dayOfYear - monthStart (monthOf dayOfYear) + 1) := by
  intro year dayOfYear
  let dayOfEra := (n + epochOffset) % eraDays
  let yearOfEra := (dayOfEra - dayOfEra / 1460 + dayOfEra / 36524 - dayOfEra / 146096) / 365
  have hera : n + epochOffset = (n + epochOffset) / eraDays * eraDays + dayOfEra := by
    rw [Int.mul_comm, Int.mul_ediv_add_emod]
  have hyearOfEra : 0 ≤ yearOfEra ∧ yearOfEra < 400 := by
    obtain ⟨century, group, year, dayOfYear, hplace⟩ :=
      exists_place (Int.emod_nonneg (n + epochOffset) (by decide))
        (Int.emod_lt_of_pos (n + epochOffset) (by decide))
    have hyear : yearOfEra = 100 * century + 4 * group + year := hplace.yearOfEra_eq
    obtain ⟨hc, hc', hg, hg', hy, hy', -, -, -⟩ := hplace
    omega
  have hday : dayOfEra - (365 * yearOfEra + yearOfEra / 4 - yearOfEra / 100) = dayOfYear := by
    have hstart : yearStart year =
        (n + epochOffset) / eraDays * eraDays + yearStart yearOfEra := yearStart_era _ yearOfEra
    have hfirst : yearStart yearOfEra = 365 * yearOfEra + yearOfEra / 4 - yearOfEra / 100 := by
      unfold yearStart
      omega
    omega
  rw [← hday]
  rfl

/-- The date of a day exists, and is the date of no other day. -/
theorem ofDayNumber_spec (n : Int) :
    (ofDayNumber n).isValid = true ∧ (ofDayNumber n).dayNumber = n := by
  rw [ofDayNumber_eq]
  obtain ⟨hyear, hyear'⟩ := yearStart_yearOf (n + epochOffset)
  generalize yearOf (n + epochOffset) = year at hyear hyear' ⊢
  generalize hday : n + epochOffset - yearStart year = dayOfYear
  obtain ⟨hmonth, hmonth'⟩ := monthStart_monthOf dayOfYear
  have hlength := yearStart_succ year
  have hin : 0 ≤ monthOf dayOfYear ∧ monthOf dayOfYear ≤ 11 := by
    unfold monthOf
    split at hlength <;> omega
  refine ⟨(isValid_ofMarch_iff hin.1 hin.2 (by omega)).2 ⟨by omega, by omega⟩, ?_⟩
  rw [dayNumber_ofMarch hin.1 hin.2 (by omega)]
  omega

/-! ## Years of four digits -/

/-- The year of a date has four digits. -/
def InYears (d : Date) : Prop := 0 ≤ d.year ∧ d.year ≤ 9999

instance (d : Date) : Decidable d.InYears := inferInstanceAs (Decidable (_ ∧ _))

/-- The years of four digits are those from day -719528 to day 2932896. -/
theorem inYears_ofDayNumber_iff {n : Int} :
    (ofDayNumber n).InYears ↔ -719528 ≤ n ∧ n ≤ 2932896 := by
  rw [ofDayNumber_eq]
  obtain ⟨hle, hlt⟩ := yearStart_yearOf (n + epochOffset)
  generalize yearOf (n + epochOffset) = year at hle hlt ⊢
  obtain ⟨hmonth, hmonth'⟩ := monthStart_monthOf (n + epochOffset - yearStart year)
  generalize monthOf (n + epochOffset - yearStart year) = month at hmonth hmonth' ⊢
  have hfirst : yearStart (-1) = -366 ∧ yearStart 0 = 0 := ⟨rfl, rfl⟩
  have hlast : yearStart 9999 = 3652059 ∧ yearStart 10000 = 3652425 := ⟨rfl, rfl⟩
  have hoffset : epochOffset = 719468 := rfl
  unfold monthStart at hmonth hmonth'
  unfold InYears ofMarch
  -- The winter of a year of March belongs to the next civil year.
  split
  · have hbefore := @yearStart_le year (-1)
    have hafter := @yearStart_le 10000 year
    have hfrom := @yearStart_le 0 year
    have huntil := @yearStart_le year 9999
    dsimp only
    omega
  · have hbefore := @yearStart_le (year + 1) (-1)
    have hafter := @yearStart_le 9999 year
    have hfrom := @yearStart_le (-1) year
    have huntil := @yearStart_le (year + 1) 9999
    dsimp only
    omega

end ChannelRelay.Date
