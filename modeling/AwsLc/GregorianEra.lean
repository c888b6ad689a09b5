import Mathlib.Algebra.Order.Ring.Int
import Mathlib.Order.SuccPred.Archimedean
import Mathlib.Tactic.LinearCombination
import Mathlib.Tactic.Ring

/-!
# Days of the Gregorian calendar

The proleptic Gregorian calendar, with years that start on the first of March, so that the day that
is added in a leap year is the last one of a year.  Four hundred years are 146097 days.
-/

namespace AwsLc.Gregorian

def yearStart (year : Int) : Int := 365 * year + year / 4 - year / 100 + year / 400

def IsLeap (year : Int) : Prop := (year % 4 = 0 ∧ year % 100 ≠ 0) ∨ year % 400 = 0

theorem succ_ediv (year : Int) {period : Int} (hperiod : 0 < period) :
    (year + 1) % period = 0 ∧ (year + 1) / period = year / period + 1 ∨
      (year + 1) % period ≠ 0 ∧ (year + 1) / period = year / period := by
  have hdiv := Int.mul_ediv_add_emod year period
  have hrem := Int.emod_nonneg year hperiod.ne'
  have hlt := Int.emod_lt_of_pos year hperiod
  by_cases hlast : year % period + 1 = period
  · left
    have hsum : 0 + period * (year / period + 1) = year + 1 := by linear_combination hdiv - hlast
    exact (and_comm.mp ((Int.ediv_emod_unique hperiod).mpr ⟨hsum, le_rfl, hperiod⟩))
  · right
    have hsum : year % period + 1 + period * (year / period) = year + 1 := by
      linear_combination hdiv
    have hunique := (Int.ediv_emod_unique hperiod).mpr ⟨hsum, by omega, by omega⟩
    exact ⟨by omega, hunique.1⟩

theorem yearStart_succ (year : Int) :
    yearStart (year + 1) = yearStart year + 365 ∧ ¬IsLeap (year + 1) ∨
      yearStart (year + 1) = yearStart year + 366 ∧ IsLeap (year + 1) := by
  have hfour := @succ_ediv year 4 (by decide)
  have hcentury := @succ_ediv year 100 (by decide)
  have hera := @succ_ediv year 400 (by decide)
  unfold yearStart IsLeap
  have hhundred : (year + 1) % 100 = 0 → (year + 1) % 4 = 0 := by
    generalize year + 1 = next
    omega
  have hmany : (year + 1) % 400 = 0 → (year + 1) % 100 = 0 := by
    generalize year + 1 = next
    omega
  generalize (year + 1) / 4 = nextFour at *
  generalize (year + 1) / 100 = nextCentury at *
  generalize (year + 1) / 400 = nextEra at *
  generalize (year + 1) % 4 = remFour at *
  generalize (year + 1) % 100 = remCentury at *
  generalize (year + 1) % 400 = remEra at *
  generalize year / 4 = four at *
  generalize year / 100 = century at *
  generalize year / 400 = era at *
  rcases hera with ⟨hera, heraEq⟩ | ⟨hera, heraEq⟩
  · have hcenturyZero := hmany hera
    right
    exact ⟨by omega, .inr hera⟩
  · rcases hcentury with ⟨hcentury, hcenturyEq⟩ | ⟨hcentury, hcenturyEq⟩
    · have hfourZero := hhundred hcentury
      left
      exact ⟨by omega, by omega⟩
    · rcases hfour with ⟨hfour, hfourEq⟩ | ⟨hfour, hfourEq⟩
      · right
        exact ⟨by omega, .inl ⟨hfour, hcentury⟩⟩
      · left
        exact ⟨by omega, by omega⟩

theorem yearStart_mono {a b : Int} (h : a ≤ b) : yearStart a ≤ yearStart b := by
  have hstep : ∀ year, yearStart year ≤ yearStart (year + 1) := by
    intro year
    rcases yearStart_succ year with ⟨hnext, -⟩ | ⟨hnext, -⟩ <;> omega
  exact monotone_int_of_le_succ hstep h

theorem yearStart_era (era year : Int) :
    yearStart (era * 400 + year) = era * 146097 + yearStart year := by
  have hfour : (era * 400 + year) / 4 = era * 100 + year / 4 := by omega
  have hcentury : (era * 400 + year) / 100 = era * 4 + year / 100 := by omega
  have hera : (era * 400 + year) / 400 = era + year / 400 := by omega
  unfold yearStart
  rw [hfour, hcentury, hera]
  ring

/-- A day of an era, by its century, its four years, its year among them and its day of the year. -/
structure EraDay (day century quad year dayOfYear : Int) : Prop where
  century_mem : 0 ≤ century ∧ century ≤ 3
  quad_mem : 0 ≤ quad ∧ quad ≤ 24
  year_mem : 0 ≤ year ∧ year ≤ 3
  day_mem : 0 ≤ dayOfYear ∧ dayOfYear ≤ 365
  /-- only leap years have a last day -/
  leap : dayOfYear = 365 → year = 3 ∧ (quad = 24 → century = 3)
  sum : day = 36524 * century + 1461 * quad + 365 * year + dayOfYear

theorem exists_eraDay {day : Int} (h : 0 ≤ day) (h' : day < 146097) :
    ∃ century quad year dayOfYear, EraDay day century quad year dayOfYear := by
  obtain ⟨century, hcentury⟩ : ∃ century, century = min 3 (day / 36524) := ⟨_, rfl⟩
  obtain ⟨rest, hrest⟩ : ∃ rest, rest = day - 36524 * century := ⟨_, rfl⟩
  have hcenturyMem : 0 ≤ century ∧ century ≤ 3 := by omega
  obtain ⟨tail, htail⟩ : ∃ tail, tail = rest - 1461 * (rest / 1461) := ⟨_, rfl⟩
  refine ⟨century, rest / 1461, min 3 (tail / 365), tail - 365 * min 3 (tail / 365),
    hcenturyMem, by omega, by omega, by omega, fun hlast => ⟨by omega, fun hquad => ?_⟩, by omega⟩
  by_contra hne
  omega

theorem year_formula {day century quad year dayOfYear : Int}
    (h : EraDay day century quad year dayOfYear) :
    (day - day / 1460 + day / 36524 - day / 146096) / 365 = 100 * century + 4 * quad + year := by
  obtain ⟨hcentury, hquad, hyear, hday, hleap, hsum⟩ := h
  -- the century, also on the last day of the era
  have hcenturies : day / 36524 - day / 146096 = century := by
    by_cases hlast : day = 146096
    · have hthree : century = 3 := by omega
      rw [hlast, hthree]
      rfl
    · have hbelow : day < 36524 * (century + 1) := by
        by_cases hquads : quad = 24
        · omega
        · omega
      have hlt : day < 146096 := by omega
      rw [Int.ediv_eq_zero_of_lt (by omega) hlt, sub_zero]
      omega
  by_cases hlong : 24 * century + quad + 365 * year + dayOfYear < 1460
  · have hquads : day / 1460 = 25 * century + quad := by omega
    omega
  · have hquads : day / 1460 = 25 * century + quad + 1 := by omega
    omega

theorem yearStart_parts {century quad year : Int} (hcentury : 0 ≤ century ∧ century ≤ 3)
    (hquad : 0 ≤ quad ∧ quad ≤ 24) (hyear : 0 ≤ year ∧ year ≤ 3) :
    yearStart (100 * century + 4 * quad + year) = 36524 * century + 1461 * quad + 365 * year := by
  unfold yearStart
  omega

theorem EraDay.bounds {day century quad year dayOfYear : Int}
    (h : EraDay day century quad year dayOfYear) :
    yearStart (100 * century + 4 * quad + year) ≤ day ∧
      day < yearStart (100 * century + 4 * quad + year + 1) := by
  obtain ⟨hcentury, hquad, hyear, hday, hleap, hsum⟩ := h
  have hstart := yearStart_parts hcentury hquad hyear
  have hnext := yearStart_succ (100 * century + 4 * quad + year)
  rw [hstart] at hnext ⊢
  refine ⟨by omega, ?_⟩
  by_cases hlast : dayOfYear = 365
  · obtain ⟨hthird, hlong⟩ := hleap hlast
    have hisLeap : IsLeap (100 * century + 4 * quad + year + 1) := by
      by_cases hquads : quad = 24
      · right
        rw [hlong hquads, hquads, hthird]
        rfl
      · left
        constructor <;> omega
    rcases hnext with ⟨-, hnot⟩ | ⟨hnext, -⟩
    · exact absurd hisLeap hnot
    · omega
  · rcases hnext with ⟨hnext, -⟩ | ⟨hnext, -⟩ <;> omega

/-- **The year of a day of an era.** -/
theorem year_of_day {day : Int} (h : 0 ≤ day) (h' : day < 146097) :
    ∃ year, (day - day / 1460 + day / 36524 - day / 146096) / 365 = year ∧ 0 ≤ year ∧ year < 400 ∧
      yearStart year ≤ day ∧ day < yearStart (year + 1) := by
  obtain ⟨century, quad, year, dayOfYear, hera⟩ := exists_eraDay h h'
  obtain ⟨hcentury, hquad, hyear, -, -, -⟩ := id hera
  have hmem : 0 ≤ 100 * century + 4 * quad + year ∧ 100 * century + 4 * quad + year < 400 := by
    omega
  exact ⟨_, year_formula hera, hmem.1, hmem.2, hera.bounds⟩

def monthStart (month : Int) : Int := (153 * month + 2) / 5

/-- **The month of a day of the year.** -/
theorem month_of_day {day : Int} (h : 0 ≤ day) (h' : day < 366) :
    ∃ month, (5 * day + 2) / 153 = month ∧ 0 ≤ month ∧ month < 12 ∧
      monthStart month ≤ day ∧ day < monthStart (month + 1) := by
  unfold monthStart
  exact ⟨_, rfl, by omega, by omega, by omega, by omega⟩

theorem monthStart_mono {a b : Int} (h : a ≤ b) : monthStart a ≤ monthStart b := by
  unfold monthStart
  omega

end AwsLc.Gregorian
