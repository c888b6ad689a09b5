import AwsLc.CheckedInt
import AwsLc.GregorianEra
import Mathlib.Tactic.IntervalCases

/-!
# Civil time (`crypto/asn1/posix_time.c`)

The conversions between `struct tm` and seconds since 1970, for the years 0000 to 9999 and without
leap seconds.  The arithmetic is that of the signed types of the source, in which an overflow is an
error of its own.
-/

namespace AwsLc

open Checked Gregorian Int32 Bool

structure Tm where
  tmSec : Int32
  tmMin : Int32
  tmHour : Int32
  tmMday : Int32
  tmMon : Int32
  tmYear : Int32
  tmWday : Int32
  tmYday : Int32
  tmIsdst : Int32
deriving DecidableEq, Repr

def SECS_PER_HOUR : Int := 60 * 60

def SECS_PER_DAY : Int := 24 * SECS_PER_HOUR

/-- 0000-01-01 00:00:00 UTC -/
def MIN_POSIX_TIME : Int := -62167219200

/-- 9999-12-31 23:59:59 UTC -/
def MAX_POSIX_TIME : Int := 253402300799

def INT64_MAX : Int := 2 ^ 63 - 1

def INT64_MIN : Int := -2 ^ 63

def isValidDate (year month day : Int) : Bool :=
  if day < 1 ∨ month < 1 ∨ year < 0 ∨ year > 9999 then false
  else if month = 1 ∨ month = 3 ∨ month = 5 ∨ month = 7 ∨ month = 8 ∨ month = 10 ∨ month = 12 then
    day > 0 && day ≤ 31
  else if month = 4 ∨ month = 6 ∨ month = 9 ∨ month = 11 then day > 0 && day ≤ 30
  else if month = 2 then
    if (year.tmod 4 = 0 ∧ year.tmod 100 ≠ 0) ∨ year.tmod 400 = 0 then day > 0 && day ≤ 29
    else day > 0 && day ≤ 28
  else false

def isValidTime (hours minutes seconds : Int) : Bool :=
  if hours < 0 ∨ minutes < 0 ∨ seconds < 0 ∨ hours > 23 ∨ minutes > 59 ∨ seconds > 59 then false
  else true

variable (time : Int)

def isValidPosixTime : Bool := MIN_POSIX_TIME ≤ time && time ≤ MAX_POSIX_TIME

/-- The end of an expression of type `int64_t`. -/
abbrev int64 (x : Tracked 64) : Except Fault Int := x.eval

/-- The end of an expression of type `int`. -/
abbrev int32 (x : Tracked 32) : Except Fault Int := x.eval

/-- The days of `posix_time_from_utc`. -/
def posixDaysFromDate (year month day : Int) : Except Fault Int := do
  let year ← int64 (if month ≤ 2 then year - 1 else year)
  let roundedYear ← int64 (if year ≥ 0 then year else year - 399)
  let era ← int64 (roundedYear / 400)
  let yearOfEra ← int64 (year - era * 400)
  let monthOfYear ← int64 (if month > 2 then month - 3 else month + 9)
  let dayOfYear ← int64 ((153 * monthOfYear + 2) / 5 + day - 1)
  let dayOfEra ← int64 (yearOfEra * 365 + yearOfEra / 4 - yearOfEra / 100 + dayOfYear)
  int64 (era * 146097 + dayOfEra - 719468)

def posixTimeFromUtc (year month day hours minutes seconds : Int) : Except Fault Int :=
  if !isValidDate year month day || !isValidTime hours minutes seconds then .error .failed
  else do
    let posixDays ← posixDaysFromDate year month day
    int64 (posixDays * SECS_PER_DAY + hours * SECS_PER_HOUR + minutes * 60 + seconds)

/-- What `utc_from_posix_time` computes. -/
structure Utc where
  year : Int
  month : Int
  day : Int
  hours : Int
  minutes : Int
  seconds : Int
deriving DecidableEq, Repr

open Utc

def castInt (x : Int) : Int := x.bmod (2 ^ 32)

/-- The days and the seconds of the day, in `utc_from_posix_time`. -/
def daysAndSeconds : Except Fault (Int × Int) := do
  let days ← int64 (time / SECS_PER_DAY)
  let leftoverSeconds ← int64 (time % SECS_PER_DAY)
  let negative := decide (leftoverSeconds < 0)
  let days ← int64 (if negative then days - 1 else days)
  let leftoverSeconds ← int64 (if negative then leftoverSeconds + SECS_PER_DAY else leftoverSeconds)
  pure (days, leftoverSeconds)

/-- The date of `utc_from_posix_time`: year, month and day. -/
def dateFromDays (days : Int) : Except Fault (Int × Int × Int) := do
  let days ← int64 (days + 719468)
  let roundedDays ← int64 (if days > 0 then days else days - 146096)
  let era ← int64 (roundedDays / 146097)
  let dayOfEra ← int64 (days - era * 146097)
  let yearOfEra ←
    int64 ((dayOfEra - dayOfEra / 1460 + dayOfEra / 36524 - dayOfEra / 146096) / 365)
  let outYear ← int64 (yearOfEra + era * 400)
  let dayOfYear ← int64 (dayOfEra - (365 * yearOfEra + yearOfEra / 4 - yearOfEra / 100))
  let monthOfYear ← int64 ((5 * dayOfYear + 2) / 153)
  let outMonth ← int64 (if monthOfYear < 10 then monthOfYear + 3 else monthOfYear - 9)
  let outYear ← int32 (if castInt outMonth ≤ 2 then castInt outYear + 1 else castInt outYear)
  let outDay ← int64 (dayOfYear - (153 * monthOfYear + 2) / 5 + 1)
  pure (outYear, castInt outMonth, castInt outDay)

def utcFromPosixTime : Except Fault Utc :=
  if !isValidPosixTime time then .error .failed
  else do
    let (days, leftoverSeconds) ← daysAndSeconds time
    let (year, month, day) ← dateFromDays days
    let outHours ← int64 (leftoverSeconds / SECS_PER_HOUR)
    let leftoverSeconds ← int64 (leftoverSeconds % SECS_PER_HOUR)
    let outMinutes ← int64 (leftoverSeconds / 60)
    let outSeconds ← int64 (leftoverSeconds % 60)
    pure { year, month, day, hours := castInt outHours, minutes := castInt outMinutes
           seconds := castInt outSeconds }

def opensslTmToPosix (tm : Tm) : Except Fault Int := do
  let year ← int64 (tm.tmYear.toInt + 1900)
  let month ← int64 (tm.tmMon.toInt + 1)
  posixTimeFromUtc year month tm.tmMday.toInt tm.tmHour.toInt tm.tmMin.toInt tm.tmSec.toInt

def opensslPosixToTm : Except Fault Tm := do
  let utc ← utcFromPosixTime time
  let year ← int32 (utc.year - 1900)
  let month ← int32 (utc.month - 1)
  pure { tmSec := ofInt utc.seconds, tmMin := ofInt utc.minutes
         tmHour := ofInt utc.hours, tmMday := ofInt utc.day
         tmMon := ofInt month, tmYear := ofInt year
         tmWday := 0, tmYday := 0, tmIsdst := 0 }

/-- The checks of `OPENSSL_gmtime_adj` before the second addition. -/
def checkAddition (posixTime offsetSec : Int) : Except Fault Unit :=
  if posixTime > 0 then do
    let room ← int64 (INT64_MAX - posixTime)
    if offsetSec > room then .error .failed else .ok ()
  else if posixTime < 0 then do
    let room ← int64 (INT64_MIN - posixTime)
    if offsetSec < room then .error .failed else .ok ()
  else .ok ()

def opensslGmtimeAdj (tm : Tm) (offsetDay : Int32) (offsetSec : Int64) : Except Fault Tm := do
  let posixTime ← opensslTmToPosix tm
  let posixTime ← int64 (posixTime + offsetDay.toInt * SECS_PER_DAY)
  checkAddition posixTime offsetSec.toInt
  let posixTime ← int64 (posixTime + offsetSec.toInt)
  opensslPosixToTm posixTime

/-! ### Instants -/

def daysInMonth (year month : Int) : Int :=
  if month = 2 then if (year % 4 = 0 ∧ year % 100 ≠ 0) ∨ year % 400 = 0 then 29 else 28
  else if month = 4 ∨ month = 6 ∨ month = 9 ∨ month = 11 then 30
  else 31

namespace Utc

structure Valid (utc : Utc) : Prop where
  year : 0 ≤ utc.year ∧ utc.year ≤ 9999
  month : 1 ≤ utc.month ∧ utc.month ≤ 12
  day : 1 ≤ utc.day ∧ utc.day ≤ daysInMonth utc.year utc.month
  hours : 0 ≤ utc.hours ∧ utc.hours ≤ 23
  minutes : 0 ≤ utc.minutes ∧ utc.minutes ≤ 59
  seconds : 0 ≤ utc.seconds ∧ utc.seconds ≤ 59

def Before (a b : Utc) : Prop :=
  a.year < b.year ∨ a.year = b.year ∧
    (a.month < b.month ∨ a.month = b.month ∧
      (a.day < b.day ∨ a.day = b.day ∧
        (a.hours < b.hours ∨ a.hours = b.hours ∧
          (a.minutes < b.minutes ∨ a.minutes = b.minutes ∧ a.seconds < b.seconds))))

def marchYear (utc : Utc) : Int := if utc.month ≤ 2 then utc.year - 1 else utc.year

def marchMonth (utc : Utc) : Int := if utc.month > 2 then utc.month - 3 else utc.month + 9

def days (utc : Utc) : Int :=
  yearStart utc.marchYear + monthStart utc.marchMonth + utc.day - 1 - 719468

def instant (utc : Utc) : Int :=
  utc.days * 86400 + utc.hours * 3600 + utc.minutes * 60 + utc.seconds

end Utc

theorem isValidDate_iff (year month day : Int) : isValidDate year month day = true ↔
      (0 ≤ year ∧ year ≤ 9999) ∧ (1 ≤ month ∧ month ≤ 12) ∧
        1 ≤ day ∧ day ≤ daysInMonth year month := by
  unfold isValidDate daysInMonth
  by_cases houtside : day < 1 ∨ month < 1 ∨ year < 0 ∨ year > 9999
  · rw [if_pos houtside]
    simp only [Bool.false_eq_true, false_iff]
    omega
  · rw [if_neg houtside]
    have hyear : 0 ≤ year := by omega
    rw [Int.tmod_eq_emod_of_nonneg hyear, Int.tmod_eq_emod_of_nonneg hyear,
      Int.tmod_eq_emod_of_nonneg hyear]
    by_cases hlong : month = 1 ∨ month = 3 ∨ month = 5 ∨ month = 7 ∨ month = 8 ∨ month = 10 ∨
        month = 12
    · rw [if_pos hlong, if_neg (by omega), if_neg (by omega), and_eq_true,
        decide_eq_true_iff, decide_eq_true_iff]
      omega
    · rw [if_neg hlong]
      by_cases hshort : month = 4 ∨ month = 6 ∨ month = 9 ∨ month = 11
      · rw [if_pos hshort, if_neg (by omega), if_pos hshort, and_eq_true,
          decide_eq_true_iff, decide_eq_true_iff]
        omega
      · rw [if_neg hshort]
        by_cases hfebruary : month = 2
        · rw [if_pos hfebruary, if_pos hfebruary]
          by_cases hleap : (year % 4 = 0 ∧ year % 100 ≠ 0) ∨ year % 400 = 0
          · rw [if_pos hleap, if_pos hleap, and_eq_true, decide_eq_true_iff,
              decide_eq_true_iff]
            clear hleap
            omega
          · rw [if_neg hleap, if_neg hleap, and_eq_true, decide_eq_true_iff,
              decide_eq_true_iff]
            clear hleap
            omega
        · rw [if_neg hfebruary]
          simp only [Bool.false_eq_true, false_iff]
          omega

theorem isValidTime_iff (hours minutes seconds : Int) : isValidTime hours minutes seconds = true ↔
      (0 ≤ hours ∧ hours ≤ 23) ∧ (0 ≤ minutes ∧ minutes ≤ 59) ∧ 0 ≤ seconds ∧ seconds ≤ 59 := by
  unfold isValidTime
  split
  · simp only [Bool.false_eq_true, false_iff]
    omega
  · simp only [true_iff]
    omega

theorem fits64_iff (x : Int) : Fits 64 x ↔ -9223372036854775808 ≤ x ∧ x ≤ 9223372036854775807 := by
  show -9223372036854775808 ≤ x ∧ x < 9223372036854775808 ↔ _
  omega

theorem fits32_iff (x : Int) : Fits 32 x ↔ -2147483648 ≤ x ∧ x ≤ 2147483647 := by
  show -2147483648 ≤ x ∧ x < 2147483648 ↔ _
  omega

theorem yearStart_add_le (year : Int) : yearStart year + 365 ≤ yearStart (year + 1) := by
  rcases yearStart_succ year with ⟨hnext, -⟩ | ⟨hnext, -⟩ <;> omega

/-- The months from March to January have a fixed number of days. -/
theorem monthStart_succ {year month : Int} (h : 1 ≤ month ∧ month ≤ 12) (hfebruary : month ≠ 2) :
    monthStart ((if month > 2 then month - 3 else month + 9) + 1) =
      monthStart (if month > 2 then month - 3 else month + 9) + daysInMonth year month := by
  unfold daysInMonth
  rw [if_neg hfebruary]
  obtain ⟨hlow, hhigh⟩ := h
  interval_cases month <;> first | exact absurd rfl hfebruary | rfl

theorem march_bounds {utc : Utc} (h : utc.Valid) :
    (-1 ≤ utc.marchYear ∧ utc.marchYear ≤ 9999) ∧ (0 ≤ utc.marchMonth ∧ utc.marchMonth ≤ 11) ∧
      monthStart utc.marchMonth + utc.day - 1 < monthStart (utc.marchMonth + 1) ∧
      yearStart utc.marchYear + (monthStart utc.marchMonth + utc.day - 1) <
        yearStart (utc.marchYear + 1) := by
  obtain ⟨hyear, hmonth, hday, -, -, -⟩ := h
  refine ⟨?_, ?_, ?_⟩
  · unfold marchYear
    split <;> omega
  · unfold marchMonth
    split <;> omega
  by_cases hfebruary : utc.month = 2
  · -- February ends the year
    have hmarchMonth : utc.marchMonth = 11 := by
      unfold marchMonth
      rw [hfebruary]
      rfl
    have hmarchYear : utc.marchYear = utc.year - 1 := by
      unfold marchYear
      rw [hfebruary]
      rfl
    have hstart : monthStart 11 = 337 := rfl
    have hend : monthStart (11 + 1) = 367 := rfl
    have hlength := yearStart_succ (utc.year - 1)
    unfold daysInMonth at hday
    unfold IsLeap at hlength
    rw [hfebruary, if_pos rfl] at hday
    rw [hmarchMonth, hmarchYear, hstart, hend]
    rw [sub_add_cancel] at hlength ⊢
    by_cases hleap : (utc.year % 4 = 0 ∧ utc.year % 100 ≠ 0) ∨ utc.year % 400 = 0
    · rw [if_pos hleap] at hday
      rcases hlength with ⟨-, hnot⟩ | ⟨hlength, -⟩
      · exact absurd hleap hnot
      · clear hleap
        omega
    · rw [if_neg hleap] at hday
      rcases hlength with ⟨hlength, -⟩ | ⟨-, hnot⟩
      · clear hleap
        omega
      · exact absurd hnot hleap
  · have hsucc := @monthStart_succ utc.year utc.month hmonth hfebruary
    have hmonthLt : monthStart utc.marchMonth + utc.day - 1 < monthStart (utc.marchMonth + 1) := by
      unfold marchMonth
      rw [hsucc]
      omega
    refine ⟨hmonthLt, ?_⟩
    have hlast : monthStart (utc.marchMonth + 1) ≤ 337 := by
      have hmax : utc.marchMonth + 1 ≤ 11 := by
        unfold marchMonth
        split <;> omega
      exact monthStart_mono hmax
    have hlong := yearStart_add_le utc.marchYear
    omega

/-! ### From dates to days -/

theorem int64_ok {x : Tracked 64} {value : Int} (hexact : x.exact = true)
    (hvalue : x.value = value) : int64 x = .ok value := by
  rw [← hvalue]
  exact Tracked.eval_of_exact hexact

theorem int64_bind {β : Type} {x : Tracked 64} {next : Int → Except Fault β} {y : Except Fault β}
    (value : Int) (hexact : x.exact = true) (hvalue : x.value = value) (hnext : next value = y) :
    (int64 x).bind next = y :=
  bind_of_ok (int64_ok hexact hvalue) hnext

theorem yearStart_of_era {year : Int} (h : 0 ≤ year) (h' : year < 400) :
    yearStart year = year * 365 + year / 4 - year / 100 := by
  unfold yearStart
  rw [Int.ediv_eq_zero_of_lt h h']
  ring

theorem posixDaysFromDate_eq {utc : Utc} (h : utc.Valid) :
    posixDaysFromDate utc.year utc.month utc.day = .ok utc.days := by
  obtain ⟨hmarchYear, hmarchMonth, hdayOfMonth, hdayOfYear⟩ := march_bounds h
  obtain ⟨hyear, hmonth, hday, -, -, -⟩ := h
  have hmonthStart : monthStart utc.marchMonth = (153 * utc.marchMonth + 2).tdiv 5 := by
    rw [tdiv_of_nonneg 5 (by omega)]
    rfl
  have hdayMax : monthStart utc.marchMonth + utc.day - 1 ≤ 366 := by
    have hlast : monthStart (utc.marchMonth + 1) ≤ 367 :=
      monthStart_mono (show utc.marchMonth + 1 ≤ 12 by omega)
    omega
  have hmonthPos : 0 ≤ monthStart utc.marchMonth := monthStart_mono hmarchMonth.1
  -- the year within its era
  have hremNonneg := Int.emod_nonneg utc.marchYear (show (400 : Int) ≠ 0 by decide)
  have hremLt := Int.emod_lt_of_pos utc.marchYear (show (0 : Int) < 400 by decide)
  have hstart := yearStart_of_era hremNonneg hremLt
  have hdays : utc.days = utc.marchYear / 400 * 146097 + (yearStart (utc.marchYear % 400) +
      (monthStart utc.marchMonth + utc.day - 1)) - 719468 := by
    have hera := yearStart_era (utc.marchYear / 400) (utc.marchYear % 400)
    rw [show utc.marchYear / 400 * 400 + utc.marchYear % 400 = utc.marchYear by omega] at hera
    unfold days
    rw [hera]
    ring
  unfold posixDaysFromDate
  refine bind_of_ok (show int64 _ = .ok utc.marchYear from ?_) ?_
  · unfold marchYear
    split <;> exact int64_ok (by simp [fits64_iff]; omega) rfl
  generalize utc.marchYear = year at *
  refine bind_of_ok (show int64 _ = .ok (if year ≥ 0 then year else year - 399) from ?_) ?_
  · split <;> exact int64_ok (by simp [fits64_iff]; omega) rfl
  have hera : (if year ≥ 0 then year else year - 399).tdiv 400 = year / 400 := by
    split
    next hnonneg => exact tdiv_of_nonneg 400 hnonneg
    next hnegative => exact @tdiv_round_down year 400 (not_le.mp hnegative).le (by decide)
  refine int64_bind (year / 400) ?_ hera ?_
  · simp [fits64_iff, hera]
    split <;> omega
  have hyearOfEra : year - year / 400 * 400 = year % 400 := by omega
  refine int64_bind (year % 400) ?_ hyearOfEra ?_
  · simp [fits64_iff]
    omega
  refine bind_of_ok (show int64 _ = .ok utc.marchMonth from ?_) ?_
  · unfold marchMonth
    split <;> exact int64_ok (by simp [fits64_iff]; omega) rfl
  generalize utc.marchMonth = month at *
  have hdayOfYearEq : (153 * month + 2).tdiv 5 + utc.day - 1 = monthStart month + utc.day - 1 := by
    rw [hmonthStart]
  refine int64_bind (monthStart month + utc.day - 1) ?_ hdayOfYearEq ?_
  · simp [fits64_iff, ← hmonthStart]
    omega
  generalize hdayOfYearDef : monthStart month + utc.day - 1 = dayOfYear at *
  generalize year % 400 = yearOfEra at *
  have hquarter := tdiv_of_nonneg 4 hremNonneg
  have hcentury := tdiv_of_nonneg 100 hremNonneg
  refine int64_bind (yearStart yearOfEra + dayOfYear) ?_ ?_ ?_
  · simp [fits64_iff, hquarter, hcentury]
    omega
  · rw [hstart]
    simp [hquarter, hcentury]
  refine int64_ok ?_ hdays.symm
  simp [fits64_iff]
  omega

/-! ### From days to dates -/

def civilDate (year dayOfYear : Int) : Utc :=
  let monthOfYear := (5 * dayOfYear + 2) / 153
  let month := if monthOfYear < 10 then monthOfYear + 3 else monthOfYear - 9
  { year := if month ≤ 2 then year + 1 else year
    month
    day := dayOfYear - monthStart monthOfYear + 1
    hours := 0, minutes := 0, seconds := 0 }

theorem civilDate_spec {year dayOfYear : Int} (hday : 0 ≤ dayOfYear)
    (hlength : yearStart year + dayOfYear < yearStart (year + 1))
    (hmin : -60 ≤ yearStart year + dayOfYear) (hmax : yearStart year + dayOfYear ≤ 3652364) :
    (civilDate year dayOfYear).Valid ∧
      (civilDate year dayOfYear).days = yearStart year + dayOfYear - 719468 := by
  have hsucc := yearStart_succ year
  obtain ⟨month, hmonthEq, hmonthNonneg, hmonthLt, hstart, hend⟩ :=
    month_of_day hday (show dayOfYear < 366 by
      rcases hsucc with ⟨hsucc, -⟩ | ⟨hsucc, -⟩ <;> omega)
  have hyearMin : -1 ≤ year := by
    by_contra hless
    have hmono := yearStart_mono (show year + 1 ≤ -1 by omega)
    have hvalue : yearStart (-1) = -366 := rfl
    omega
  have hyearMax : year ≤ 9999 := by
    by_contra hmore
    have hmono := yearStart_mono (show 10000 ≤ year by omega)
    have hvalue : yearStart 10000 = 3652425 := rfl
    omega
  -- the first and the last year are cut off
  have hfirst : year = -1 → 10 ≤ month := by
    rintro rfl
    have hvalue : yearStart (-1) = -366 := rfl
    by_contra hless
    omega
  have hlast : year = 9999 → month < 10 := by
    rintro rfl
    have hvalue : yearStart 9999 = 3652059 := rfl
    by_contra hmore
    omega
  obtain ⟨y, m, hcivil, hdate⟩ : ∃ y m, civilDate year dayOfYear =
      { year := y, month := m, day := dayOfYear - monthStart month + 1
        hours := 0, minutes := 0, seconds := 0 } ∧
      (month < 10 ∧ y = year ∧ m = month + 3 ∨ 10 ≤ month ∧ y = year + 1 ∧ m = month - 9) := by
    unfold civilDate
    simp only [hmonthEq]
    by_cases hearly : month < 10
    · rw [if_pos hearly, if_neg (by omega)]
      exact ⟨_, _, rfl, Or.inl ⟨hearly, rfl, rfl⟩⟩
    · rw [if_neg hearly, if_pos (by omega)]
      exact ⟨_, _, rfl, Or.inr ⟨by omega, rfl, rfl⟩⟩
  have hback : (if m > 2 then m - 3 else m + 9) = month := by
    split <;> omega
  have hdayMax : dayOfYear - monthStart month + 1 ≤ daysInMonth y m := by
    by_cases hfebruary : month = 11
    · have hvalue : monthStart 11 = 337 := rfl
      obtain ⟨rfl, rfl⟩ : y = year + 1 ∧ m = 2 := by omega
      rw [hfebruary, hvalue]
      unfold daysInMonth
      rw [if_pos rfl]
      unfold IsLeap at hsucc
      rcases hsucc with ⟨hsucc, hnot⟩ | ⟨hsucc, hleap⟩
      · rw [if_neg hnot]
        clear hnot
        omega
      · rw [if_pos hleap]
        clear hleap
        omega
    · have hnext := @monthStart_succ y m (by omega) (by omega)
      rw [hback] at hnext
      omega
  rw [hcivil]
  constructor
  · refine ⟨?_, ?_, ⟨?_, hdayMax⟩, ?_, ?_, ?_⟩
    · show 0 ≤ y ∧ y ≤ 9999
      omega
    · show 1 ≤ m ∧ m ≤ 12
      omega
    · show 1 ≤ dayOfYear - monthStart month + 1
      omega
    · show (0 : Int) ≤ 0 ∧ (0 : Int) ≤ 23
      decide
    · show (0 : Int) ≤ 0 ∧ (0 : Int) ≤ 59
      decide
    · show (0 : Int) ≤ 0 ∧ (0 : Int) ≤ 59
      decide
  · have hyearBack : (if m ≤ 2 then y - 1 else y) = year := by
      split <;> omega
    unfold days marchYear marchMonth
    dsimp only
    rw [hback, hyearBack]
    ring

theorem int32_ok {x : Tracked 32} {value : Int} (hexact : x.exact = true)
    (hvalue : x.value = value) : int32 x = .ok value := by
  rw [← hvalue]
  exact Tracked.eval_of_exact hexact

theorem castInt_eq {x : Int} (h : Fits 32 x) : castInt x = x := by
  rw [fits32_iff] at h
  unfold castInt
  rw [Int.bmod_def]
  split <;> omega

/-- The steps of the conversion, given what the formulas stand for. -/
theorem dateFromDays_steps {days total era dayOfEra yearOfEra dayOfYear : Int}
    (hmin : -719528 ≤ days) (hmax : days ≤ 2932896) (htotal : total = days + 719468)
    (hera : era = total / 146097) (hdayOfEra : dayOfEra = total % 146097)
    (hformula : (dayOfEra - dayOfEra / 1460 + dayOfEra / 36524 - dayOfEra / 146096) / 365 =
      yearOfEra)
    (hyearNonneg : 0 ≤ yearOfEra) (hyearLt : yearOfEra < 400)
    (hdayOfYear : dayOfYear = dayOfEra - yearStart yearOfEra) (hdayNonneg : 0 ≤ dayOfYear)
    (hdayLt : dayOfYear < 366) :
    let utc := civilDate (era * 400 + yearOfEra) dayOfYear
    dateFromDays days = .ok (utc.year, utc.month, utc.day) := by
  intro utc
  have hdayOfEraBounds : 0 ≤ dayOfEra ∧ dayOfEra < 146097 := by
    clear hformula
    omega
  have hsplit : total - era * 146097 = dayOfEra := by
    clear hformula
    omega
  have hstart := yearStart_of_era hyearNonneg hyearLt
  unfold dateFromDays
  refine int64_bind total ?_ htotal.symm ?_
  · simp [fits64_iff]
    clear hformula
    omega
  refine bind_of_ok (show int64 _ = .ok (if total > 0 then total else total - 146096) from ?_) ?_
  · clear hformula
    split <;> exact int64_ok (by simp [fits64_iff]; omega) rfl
  have heraEq : (if total > 0 then total else total - 146096).tdiv 146097 = era := by
    rw [hera]
    split
    next hpositive => exact tdiv_of_nonneg 146097 hpositive.le
    next hnegative => exact @tdiv_round_down total 146097 (not_lt.mp hnegative) (by decide)
  refine int64_bind era ?_ heraEq ?_
  · simp [fits64_iff, heraEq]
    clear hformula
    split <;> omega
  refine int64_bind dayOfEra ?_ hsplit ?_
  · simp [fits64_iff]
    clear hformula
    omega
  -- the year of the era, by the formula
  have hquads := tdiv_of_nonneg 1460 hdayOfEraBounds.1
  have hcenturies := tdiv_of_nonneg 36524 hdayOfEraBounds.1
  have hlast := tdiv_of_nonneg 146096 hdayOfEraBounds.1
  have hnumerator : 0 ≤ dayOfEra - dayOfEra / 1460 + dayOfEra / 36524 - dayOfEra / 146096 ∧
      dayOfEra - dayOfEra / 1460 + dayOfEra / 36524 - dayOfEra / 146096 ≤ 200000 := by
    clear hformula
    omega
  have hyears := tdiv_of_nonneg 365 hnumerator.1
  refine int64_bind yearOfEra ?_ ?_ ?_
  · simp [fits64_iff, hquads, hcenturies, hlast, hyears, hformula]
    clear hformula hyears
    omega
  · simp [hquads, hcenturies, hlast, hyears, hformula]
  clear hformula hyears hnumerator
  refine int64_bind (era * 400 + yearOfEra) ?_ (Int.add_comm yearOfEra (era * 400)) ?_
  · simp [fits64_iff]
    omega
  have hquarter := tdiv_of_nonneg 4 hyearNonneg
  have hcentury := tdiv_of_nonneg 100 hyearNonneg
  refine int64_bind dayOfYear ?_ ?_ ?_
  · simp [fits64_iff, hquarter, hcentury]
    omega
  · rw [hdayOfYear, hstart]
    simp [hquarter, hcentury]
    ring
  have hmonthEq := tdiv_of_nonneg 153 (show 0 ≤ 5 * dayOfYear + 2 by omega)
  refine int64_bind ((5 * dayOfYear + 2) / 153) ?_ hmonthEq ?_
  · simp [fits64_iff, hmonthEq]
    omega
  have hmonthBounds : 0 ≤ (5 * dayOfYear + 2) / 153 ∧ (5 * dayOfYear + 2) / 153 ≤ 11 := by omega
  dsimp only [utc, civilDate]
  clear utc
  generalize (5 * dayOfYear + 2) / 153 = month at *
  refine bind_of_ok (show int64 _ = .ok (if month < 10 then month + 3 else month - 9) from ?_) ?_
  · split <;> exact int64_ok (by simp [fits64_iff]; omega) rfl
  have hmonthCast : castInt (if month < 10 then month + 3 else month - 9) =
      if month < 10 then month + 3 else month - 9 := by
    apply castInt_eq
    rw [fits32_iff]
    split <;> omega
  have hyearCast : castInt (era * 400 + yearOfEra) = era * 400 + yearOfEra := by
    apply castInt_eq
    rw [fits32_iff]
    omega
  rw [hmonthCast, hyearCast]
  generalize (if month < 10 then month + 3 else month - 9) = outMonth at *
  refine bind_of_ok (show int32 _ = .ok (if outMonth ≤ 2 then era * 400 + yearOfEra + 1
    else era * 400 + yearOfEra) from ?_) ?_
  · split <;> exact int32_ok (by simp [fits32_iff]; omega) rfl
  have hstartEq := tdiv_of_nonneg 5 (show 0 ≤ 153 * month + 2 by omega)
  have hmonthStart : (153 * month + 2) / 5 = monthStart month := rfl
  refine int64_bind (dayOfYear - monthStart month + 1) ?_ ?_ ?_
  · simp [fits64_iff, hstartEq]
    omega
  · simp [hstartEq, hmonthStart]
  have hdayCast : castInt (dayOfYear - monthStart month + 1) =
      dayOfYear - monthStart month + 1 := by
    apply castInt_eq
    rw [fits32_iff, ← hmonthStart]
    omega
  rw [hdayCast]
  rfl

theorem dateFromDays_eq {days : Int} (hmin : -719528 ≤ days) (hmax : days ≤ 2932896) :
    ∃ utc : Utc, dateFromDays days = .ok (utc.year, utc.month, utc.day) ∧ utc.Valid ∧
      utc.days = days := by
  obtain ⟨total, htotal⟩ : ∃ total, total = days + 719468 := ⟨_, rfl⟩
  -- the day within its era
  have hsplit := Int.mul_ediv_add_emod total 146097
  have hremNonneg := Int.emod_nonneg total (show (146097 : Int) ≠ 0 by decide)
  have hremLt := Int.emod_lt_of_pos total (show (0 : Int) < 146097 by decide)
  obtain ⟨yearOfEra, hformula, hyearNonneg, hyearLt, hstart, hend⟩ :=
    year_of_day hremNonneg hremLt
  obtain ⟨era, hera⟩ : ∃ era, era = total / 146097 := ⟨_, rfl⟩
  obtain ⟨dayOfEra, hdayOfEra⟩ : ∃ dayOfEra, dayOfEra = total % 146097 := ⟨_, rfl⟩
  rw [← hera, ← hdayOfEra] at hsplit
  rw [← hdayOfEra] at hformula hremNonneg hremLt hstart hend
  obtain ⟨dayOfYear, hdayOfYear⟩ : ∃ dayOfYear, dayOfYear = dayOfEra - yearStart yearOfEra :=
    ⟨_, rfl⟩
  have hyearStart := yearStart_era era yearOfEra
  have hyearNext := yearStart_era era (yearOfEra + 1)
  rw [← Int.add_assoc] at hyearNext
  obtain ⟨hvalid, hdays⟩ := @civilDate_spec (era * 400 + yearOfEra) dayOfYear (by omega)
    (by omega) (by omega) (by omega)
  refine ⟨civilDate (era * 400 + yearOfEra) dayOfYear, ?_, hvalid, by omega⟩
  exact dateFromDays_steps hmin hmax htotal hera hdayOfEra hformula hyearNonneg hyearLt hdayOfYear
    (by omega) (by
      have hlong := yearStart_succ yearOfEra
      rcases hlong with ⟨hlong, -⟩ | ⟨hlong, -⟩ <;> omega)

/-! ### The conversions -/

def InRange : Prop := MIN_POSIX_TIME ≤ time ∧ time ≤ MAX_POSIX_TIME

theorem isValidPosixTime_iff : isValidPosixTime time = true ↔ InRange time := by
  unfold isValidPosixTime InRange
  rw [and_eq_true, decide_eq_true_iff, decide_eq_true_iff]

theorem inRange_iff : InRange time ↔ -62167219200 ≤ time ∧ time ≤ 253402300799 := Iff.rfl

theorem daysAndSeconds_eq {time : Int} (h : InRange time) :
    daysAndSeconds time = .ok (time / 86400, time % 86400) := by
  rw [inRange_iff] at h
  have hday : SECS_PER_DAY = 86400 := rfl
  unfold daysAndSeconds
  rcases @tdiv_tmod_cases time 86400 (by decide) with ⟨hdiv, hmod⟩ | ⟨hdiv, hmod, hneg⟩
  · refine int64_bind (time / 86400) ?_ hdiv ?_
    · simp [fits64_iff, hday, hdiv]
      omega
    refine int64_bind (time % 86400) ?_ hmod ?_
    · simp [fits64_iff, hday, hdiv]
      omega
    have hsign : decide (time % 86400 < 0) = false := by
      rw [decide_eq_false_iff_not]
      omega
    simp only [hsign, Bool.false_eq_true, if_false]
    refine int64_bind (time / 86400) ?_ rfl ?_
    · simp [fits64_iff]
      omega
    refine int64_bind (time % 86400) ?_ rfl rfl
    simp [fits64_iff]
    omega
  · refine int64_bind (time / 86400 + 1) ?_ hdiv ?_
    · simp [fits64_iff, hday, hdiv]
      omega
    refine int64_bind (time % 86400 - 86400) ?_ hmod ?_
    · simp [fits64_iff, hday, hdiv]
      omega
    have hsign : decide (time % 86400 - 86400 < 0) = true := by
      rw [decide_eq_true_iff]
      omega
    simp only [hsign, if_true]
    refine int64_bind (time / 86400) ?_ ?_ ?_
    · simp [fits64_iff]
      omega
    · simp
    refine int64_bind (time % 86400) ?_ ?_ rfl
    · simp [fits64_iff, hday]
      omega
    · simp [hday]

theorem utcFromPosixTime_eq {time : Int} (h : InRange time) :
    ∃ utc : Utc, utcFromPosixTime time = .ok utc ∧ utc.Valid ∧ utc.instant = time := by
  have hvalid : isValidPosixTime time = true := (isValidPosixTime_iff time).mpr h
  have hseconds := daysAndSeconds_eq h
  rw [inRange_iff] at h
  obtain ⟨date, hdate, hdateValid, hdays⟩ :=
    @dateFromDays_eq (time / 86400) (by omega) (by omega)
  have hhour : SECS_PER_HOUR = 3600 := rfl
  have hrest : 0 ≤ time % 86400 ∧ time % 86400 < 86400 := by omega
  obtain ⟨rest, hrestEq⟩ : ∃ rest, rest = time % 86400 := ⟨_, rfl⟩
  rw [← hrestEq] at hseconds hrest
  have hhours : 0 ≤ rest / 3600 ∧ rest / 3600 ≤ 23 := by omega
  have hleft : 0 ≤ rest % 3600 ∧ rest % 3600 < 3600 := by omega
  have hminutes : 0 ≤ rest % 3600 / 60 ∧ rest % 3600 / 60 ≤ 59 := by omega
  have hsecond : 0 ≤ rest % 3600 % 60 ∧ rest % 3600 % 60 ≤ 59 := by omega
  refine ⟨⟨date.year, date.month, date.day, rest / 3600, rest % 3600 / 60, rest % 3600 % 60⟩, ?_,
    ⟨hdateValid.year, hdateValid.month, hdateValid.day, hhours, hminutes, hsecond⟩, ?_⟩
  · unfold utcFromPosixTime
    rw [hvalid]
    simp only [Bool.not_true, Bool.false_eq_true, if_false]
    refine bind_of_ok hseconds (bind_of_ok hdate ?_)
    have hhoursDiv := tdiv_of_nonneg 3600 hrest.1
    have hminutesDiv := tdiv_of_nonneg 60 hleft.1
    refine int64_bind (rest / 3600) ?_ hhoursDiv ?_
    · simp [fits64_iff, hhour, hhoursDiv]
      omega
    refine int64_bind (rest % 3600) ?_ (Int.tmod_eq_emod_of_nonneg hrest.1) ?_
    · simp [fits64_iff, hhour, hhoursDiv]
      omega
    refine int64_bind (rest % 3600 / 60) ?_ hminutesDiv ?_
    · simp [fits64_iff, hminutesDiv]
      omega
    refine int64_bind (rest % 3600 % 60) ?_ (Int.tmod_eq_emod_of_nonneg hleft.1) ?_
    · simp [fits64_iff, hminutesDiv]
      omega
    have hcast : castInt (rest / 3600) = rest / 3600 := castInt_eq (by rw [fits32_iff]; omega)
    have hcastMinutes : castInt (rest % 3600 / 60) = rest % 3600 / 60 :=
      castInt_eq (by rw [fits32_iff]; omega)
    have hcastSeconds : castInt (rest % 3600 % 60) = rest % 3600 % 60 :=
      castInt_eq (by rw [fits32_iff]; omega)
    rw [hcast, hcastMinutes, hcastSeconds]
    rfl
  · have hday := Int.mul_ediv_add_emod time 86400
    show date.days * 86400 + rest / 3600 * 3600 + rest % 3600 / 60 * 60 + rest % 3600 % 60 = time
    omega

theorem march_lt {a b : Utc} (ha : a.Valid) (hb : b.Valid)
    (h : a.year < b.year ∨ a.year = b.year ∧ a.month < b.month) :
    a.marchYear < b.marchYear ∨ a.marchYear = b.marchYear ∧ a.marchMonth < b.marchMonth := by
  have hmonth := ha.month
  have hmonth' := hb.month
  unfold marchYear marchMonth
  split <;> split <;> split <;> split <;> omega

theorem days_lt_of_march {a b : Utc} (ha : a.Valid) (hb : b.Valid)
    (h : a.marchYear < b.marchYear ∨ a.marchYear = b.marchYear ∧ a.marchMonth < b.marchMonth) :
    a.days < b.days := by
  obtain ⟨-, ⟨hlow, -⟩, hmonthEnd, hyearEnd⟩ := march_bounds ha
  obtain ⟨-, ⟨hlow', -⟩, -, -⟩ := march_bounds hb
  have hday := hb.day.1
  unfold days
  rcases h with hyear | ⟨hyear, hmonth⟩
  · have hstart := yearStart_mono (show a.marchYear + 1 ≤ b.marchYear by omega)
    have hnonneg : 0 ≤ monthStart b.marchMonth := monthStart_mono hlow'
    omega
  · have hstart := monthStart_mono (show a.marchMonth + 1 ≤ b.marchMonth by omega)
    rw [hyear]
    omega

theorem instant_lt {a b : Utc} (ha : a.Valid) (hb : b.Valid) (h : a.Before b) :
    a.instant < b.instant := by
  have hdays : a.days < b.days ∨ a.days = b.days ∧
      (a.hours < b.hours ∨ a.hours = b.hours ∧
        (a.minutes < b.minutes ∨ a.minutes = b.minutes ∧ a.seconds < b.seconds)) := by
    rcases h with hyear | ⟨hyear, hmonth | ⟨hmonth, hday | ⟨hday, hrest⟩⟩⟩
    · exact Or.inl (days_lt_of_march ha hb (march_lt ha hb (Or.inl hyear)))
    · exact Or.inl (days_lt_of_march ha hb (march_lt ha hb (Or.inr ⟨hyear, hmonth⟩)))
    · left
      unfold days marchYear marchMonth
      rw [hyear, hmonth]
      omega
    · right
      refine ⟨?_, hrest⟩
      unfold days marchYear marchMonth
      rw [hyear, hmonth, hday]
  obtain ⟨-, -, -, hhours, hminutes, hseconds⟩ := ha
  obtain ⟨-, -, -, hhours', hminutes', hseconds'⟩ := hb
  unfold instant
  omega

theorem before_trichotomy (a b : Utc) : a.Before b ∨ a = b ∨ b.Before a := by
  unfold Utc.Before
  by_cases heq : a = b
  · exact Or.inr (Or.inl heq)
  · have hfield : ¬ (a.year = b.year ∧ a.month = b.month ∧ a.day = b.day ∧ a.hours = b.hours ∧
        a.minutes = b.minutes ∧ a.seconds = b.seconds) := by
      rintro ⟨hyear, hmonth, hday, hhours, hminutes, hseconds⟩
      cases a
      cases b
      simp_all
    omega

theorem before_iff {a b : Utc} (ha : a.Valid) (hb : b.Valid) :
    a.Before b ↔ a.instant < b.instant := by
  refine ⟨instant_lt ha hb, fun h => ?_⟩
  rcases before_trichotomy a b with hbefore | rfl | hafter
  · exact hbefore
  · exact absurd h (lt_irrefl _)
  · exact absurd h (lt_asymm (instant_lt hb ha hafter))

theorem instant_injective {a b : Utc} (ha : a.Valid) (hb : b.Valid)
    (h : a.instant = b.instant) : a = b := by
  rcases before_trichotomy a b with hbefore | heq | hafter
  · exact absurd h (instant_lt ha hb hbefore).ne
  · exact heq
  · exact absurd h (instant_lt hb ha hafter).ne'

/-- The first instant is that of 0000-01-01 00:00:00, the last that of 9999-12-31 23:59:59. -/
theorem instant_inRange {utc : Utc} (h : utc.Valid) : InRange utc.instant := by
  have hfirst : Utc.Valid ⟨0, 1, 1, 0, 0, 0⟩ := by constructor <;> decide
  have hlast : Utc.Valid ⟨9999, 12, 31, 23, 59, 59⟩ := by constructor <;> decide
  constructor
  · rcases before_trichotomy utc ⟨0, 1, 1, 0, 0, 0⟩ with hbefore | heq | hafter
    · obtain ⟨⟨hyear, -⟩, ⟨hmonth, -⟩, ⟨hday, -⟩, ⟨hhours, -⟩, ⟨hminutes, -⟩, ⟨hseconds, -⟩⟩ := h
      simp only [Utc.Before] at hbefore
      omega
    · rw [heq]
      decide
    · exact (instant_lt hfirst h hafter).le
  · rcases before_trichotomy ⟨9999, 12, 31, 23, 59, 59⟩ utc with hbefore | heq | hafter
    · obtain ⟨⟨-, hyear⟩, ⟨-, hmonth⟩, ⟨-, hday⟩, ⟨-, hhours⟩, ⟨-, hminutes⟩, ⟨-, hseconds⟩⟩ := h
      have hlength : daysInMonth utc.year utc.month ≤ 31 := by
        unfold daysInMonth
        split
        · split <;> omega
        · split <;> omega
      simp only [Utc.Before] at hbefore
      omega
    · rw [← heq]
      decide
    · exact (instant_lt h hlast hafter).le

theorem posixTimeFromUtc_eq (utc : Utc) : (utc.Valid →
      posixTimeFromUtc utc.year utc.month utc.day utc.hours utc.minutes utc.seconds =
        .ok utc.instant) ∧ (¬ utc.Valid →
        posixTimeFromUtc utc.year utc.month utc.day utc.hours utc.minutes utc.seconds =
          .error .failed) := by
  constructor
  · intro h
    have hrange := instant_inRange h
    have hdate := (isValidDate_iff utc.year utc.month utc.day).mpr ⟨h.year, h.month, h.day⟩
    have htime := (isValidTime_iff utc.hours utc.minutes utc.seconds).mpr
      ⟨h.hours, h.minutes, h.seconds⟩
    have hdays := posixDaysFromDate_eq h
    obtain ⟨-, -, -, hhours, hminutes, hseconds⟩ := h
    rw [inRange_iff] at hrange
    unfold posixTimeFromUtc
    rw [hdate, htime]
    simp only [Bool.not_true, Bool.or_self, Bool.false_eq_true, if_false]
    refine bind_of_ok hdays (int64_ok ?_ rfl)
    have hday : SECS_PER_DAY = 86400 := rfl
    have hhour : SECS_PER_HOUR = 3600 := rfl
    unfold instant at hrange
    simp [fits64_iff, hday, hhour]
    omega
  · intro h
    unfold posixTimeFromUtc
    rw [if_pos]
    rw [or_eq_true, not_eq_true', not_eq_true', ← not_eq_true,
      ← not_eq_true, isValidDate_iff, isValidTime_iff]
    by_contra hboth
    push Not at hboth
    obtain ⟨⟨hyear, hmonth, hday⟩, hhours, hminutes, hseconds⟩ := hboth
    exact h ⟨hyear, hmonth, hday, hhours, hminutes, hseconds⟩

/-- The timestamp that a `struct tm` stands for. -/
def Tm.utc (tm : Tm) : Utc where
  year := tm.tmYear.toInt + 1900
  month := tm.tmMon.toInt + 1
  day := tm.tmMday.toInt
  hours := tm.tmHour.toInt
  minutes := tm.tmMin.toInt
  seconds := tm.tmSec.toInt

theorem int32_bounds (x : Int32) : -2147483648 ≤ x.toInt ∧ x.toInt ≤ 2147483647 := by
  have hlow := x.le_toInt
  have hhigh := x.toInt_lt
  omega

theorem int64_bounds (x : Int64) :
    -9223372036854775808 ≤ x.toInt ∧ x.toInt ≤ 9223372036854775807 := by
  have hlow := x.le_toInt
  have hhigh := x.toInt_lt
  omega

theorem opensslTmToPosix_utc (tm : Tm) :
    opensslTmToPosix tm = posixTimeFromUtc tm.utc.year tm.utc.month tm.utc.day tm.utc.hours
      tm.utc.minutes tm.utc.seconds := by
  have hyear := int32_bounds tm.tmYear
  have hmonth := int32_bounds tm.tmMon
  unfold opensslTmToPosix
  refine int64_bind (tm.tmYear.toInt + 1900) ?_ rfl ?_
  · simp [fits64_iff]
    omega
  refine int64_bind (tm.tmMon.toInt + 1) ?_ rfl rfl
  simp [fits64_iff]
  omega

theorem opensslTmToPosix_valid {tm : Tm} (h : tm.utc.Valid) :
    opensslTmToPosix tm = .ok tm.utc.instant := by
  rw [opensslTmToPosix_utc]
  exact (posixTimeFromUtc_eq tm.utc).1 h

theorem opensslTmToPosix_invalid {tm : Tm} (h : ¬ tm.utc.Valid) :
    opensslTmToPosix tm = .error .failed := by
  rw [opensslTmToPosix_utc]
  exact (posixTimeFromUtc_eq tm.utc).2 h

theorem toInt_ofInt {x : Int} (hlow : -2147483648 ≤ x) (hhigh : x ≤ 2147483647) :
    (ofInt x).toInt = x := by
  rw [toInt_ofInt_of_le (by omega) (by omega)]

def Utc.toTm (utc : Utc) : Tm :=
  { tmSec := ofInt utc.seconds, tmMin := ofInt utc.minutes
    tmHour := ofInt utc.hours, tmMday := ofInt utc.day
    tmMon := ofInt (utc.month - 1), tmYear := ofInt (utc.year - 1900)
    tmWday := 0, tmYday := 0, tmIsdst := 0 }

theorem opensslPosixToTm_inRange {time : Int} (h : InRange time) :
    ∃ tm : Tm, opensslPosixToTm time = .ok tm ∧ tm.utc.Valid ∧ tm.utc.instant = time ∧
      tm.tmWday = 0 ∧ tm.tmYday = 0 ∧ tm.tmIsdst = 0 := by
  obtain ⟨utc, hutc, hvalid, hinstant⟩ := utcFromPosixTime_eq h
  have hlength : daysInMonth utc.year utc.month ≤ 31 := by
    unfold daysInMonth
    split
    · split <;> omega
    · split <;> omega
  have hvalid' := hvalid
  obtain ⟨hyear, hmonth, hday, hhours, hminutes, hseconds⟩ := hvalid'
  have hout : opensslPosixToTm time = .ok utc.toTm := by
    unfold opensslPosixToTm
    refine bind_of_ok hutc ?_
    refine bind_of_ok (show int32 _ = .ok (utc.year - 1900) from int32_ok ?_ rfl) ?_
    · simp [fits32_iff]
      omega
    refine bind_of_ok (show int32 _ = .ok (utc.month - 1) from int32_ok ?_ rfl) rfl
    simp [fits32_iff]
    omega
  refine ⟨_, hout, ?_⟩
  have hsame : utc.toTm.utc = utc := by
    unfold Tm.utc Utc.toTm
    rw [toInt_ofInt (by omega) (by omega), toInt_ofInt (by omega) (by omega),
      toInt_ofInt (by omega) (by omega), toInt_ofInt (by omega) (by omega),
      toInt_ofInt (by omega) (by omega), toInt_ofInt (by omega) (by omega),
      sub_add_cancel, sub_add_cancel]
  rw [hsame]
  exact ⟨hvalid, hinstant, rfl, rfl, rfl⟩

theorem opensslPosixToTm_outside {time : Int} (h : ¬ InRange time) :
    opensslPosixToTm time = .error .failed := by
  rw [← isValidPosixTime_iff, not_eq_true] at h
  unfold opensslPosixToTm utcFromPosixTime
  rw [h]
  rfl

/-- The six fields of the timestamp determine a broken-down time up to the others. -/
theorem tm_eq_of_utc {a b : Tm} (h : a.utc = b.utc) (hwday : a.tmWday = 0) (hyday : a.tmYday = 0)
    (hisdst : a.tmIsdst = 0) : a = { b with tmWday := 0, tmYday := 0, tmIsdst := 0 } := by
  obtain ⟨hyear, hmonth, hday, hhours, hminutes, hseconds⟩ := mk.inj h
  cases a
  cases b
  simp only [Tm.mk.injEq]
  refine ⟨toInt_inj.mp hseconds, toInt_inj.mp hminutes, toInt_inj.mp hhours,
    toInt_inj.mp hday, toInt_inj.mp (by simpa using hmonth),
    toInt_inj.mp (by simpa using hyear), hwday, hyday, hisdst⟩

/-- The check before the addition never stops a sum that fits, and lets no other through. -/
theorem checkAddition_eq {posixTime offsetSec : Int} (htime : Fits 64 posixTime)
    (hoffset : Fits 64 offsetSec) : checkAddition posixTime offsetSec =
      if Fits 64 (posixTime + offsetSec) then .ok () else .error .failed := by
  rw [fits64_iff] at htime hoffset
  have hmax : INT64_MAX = 9223372036854775807 := rfl
  have hmin : INT64_MIN = -9223372036854775808 := rfl
  unfold checkAddition
  by_cases hpos : posixTime > 0
  · rw [if_pos hpos]
    refine bind_of_ok
      (show int64 _ = .ok (9223372036854775807 - posixTime) from int64_ok ?_ rfl) ?_
    · simp [fits64_iff, hmax]
      omega
    by_cases hover : offsetSec > 9223372036854775807 - posixTime
    · rw [if_pos hover, if_neg]
      rw [fits64_iff]
      omega
    · rw [if_neg hover, if_pos]
      rw [fits64_iff]
      omega
  · rw [if_neg hpos]
    by_cases hneg : posixTime < 0
    · rw [if_pos hneg]
      refine bind_of_ok
        (show int64 _ = .ok (-9223372036854775808 - posixTime) from int64_ok ?_ rfl) ?_
      · simp [fits64_iff, hmin]
        omega
      by_cases hunder : offsetSec < -9223372036854775808 - posixTime
      · rw [if_pos hunder, if_neg]
        rw [fits64_iff]
        omega
      · rw [if_neg hunder, if_pos]
        rw [fits64_iff]
        omega
    · rw [if_neg hneg, if_pos]
      rw [fits64_iff]
      omega

/-- The sum of a valid time and two offsets is converted exactly if it is in the range. -/
theorem opensslGmtimeAdj_eq {tm : Tm} (h : tm.utc.Valid) (offsetDay : Int32) (offsetSec : Int64) :
    opensslGmtimeAdj tm offsetDay offsetSec =
      opensslPosixToTm (tm.utc.instant + offsetDay.toInt * 86400 + offsetSec.toInt) := by
  have hrange := instant_inRange h
  have hday : SECS_PER_DAY = 86400 := rfl
  have hdays := int32_bounds offsetDay
  have hseconds := int64_bounds offsetSec
  rw [inRange_iff] at hrange
  unfold opensslGmtimeAdj
  refine bind_of_ok (opensslTmToPosix_valid h) ?_
  generalize tm.utc.instant = start at hrange ⊢
  generalize offsetDay.toInt = days at hdays ⊢
  generalize offsetSec.toInt = seconds at hseconds ⊢
  refine int64_bind (start + days * 86400) ?_ rfl ?_
  · simp [fits64_iff, hday]
    omega
  have hcheck := @checkAddition_eq (start + days * 86400) seconds
    (by rw [fits64_iff]; omega) (by rw [fits64_iff]; omega)
  by_cases hfits : Fits 64 (start + days * 86400 + seconds)
  · rw [if_pos hfits] at hcheck
    refine bind_of_ok hcheck (bind_of_ok
      (show int64 _ = .ok (start + days * 86400 + seconds) from int64_ok ?_ rfl) rfl)
    rw [fits64_iff] at hfits
    simp [fits64_iff]
    omega
  · rw [if_neg hfits] at hcheck
    rw [hcheck, opensslPosixToTm_outside]
    · rfl
    · rw [inRange_iff]
      rw [fits64_iff] at hfits
      omega

/-- **The conversions of civil time.** `OPENSSL_tm_to_posix` and `OPENSSL_posix_to_tm` are
    inverse to each other and keep the order between the valid timestamps of the years 0000 to
    9999 and the integers of the range; both fail on anything else. `OPENSSL_gmtime_adj` of a
    valid time succeeds exactly when the exact sum is in the range, and gives that instant. A
    failure is never an overflow. -/
theorem posix_time_bijection :
    (∀ tm : Tm, tm.utc.Valid → ∃ time, InRange time ∧ opensslTmToPosix tm = .ok time ∧
      opensslPosixToTm time = .ok { tm with tmWday := 0, tmYday := 0, tmIsdst := 0 }) ∧
    (∀ tm : Tm, ¬ tm.utc.Valid → opensslTmToPosix tm = .error .failed) ∧
    (∀ time, InRange time → ∃ tm : Tm, tm.utc.Valid ∧ opensslPosixToTm time = .ok tm ∧
      opensslTmToPosix tm = .ok time) ∧
    (∀ time, ¬ InRange time → opensslPosixToTm time = .error .failed) ∧
    (∀ (a b : Tm) (timeA timeB : Int), opensslTmToPosix a = .ok timeA →
      opensslTmToPosix b = .ok timeB → (a.utc.Before b.utc ↔ timeA < timeB)) ∧
    (∀ (tm : Tm) (time : Int) (offsetDay : Int32) (offsetSec : Int64),
      opensslTmToPosix tm = .ok time →
        (InRange (time + offsetDay.toInt * 86400 + offsetSec.toInt) →
          ∃ sum : Tm, opensslGmtimeAdj tm offsetDay offsetSec = .ok sum ∧ sum.utc.Valid ∧
            opensslTmToPosix sum = .ok (time + offsetDay.toInt * 86400 + offsetSec.toInt)) ∧
        (¬ InRange (time + offsetDay.toInt * 86400 + offsetSec.toInt) →
          opensslGmtimeAdj tm offsetDay offsetSec = .error .failed)) := by
  have hvalid : ∀ {tm : Tm} {time : Int}, opensslTmToPosix tm = .ok time →
      tm.utc.Valid ∧ tm.utc.instant = time := by
    intro tm time h
    by_cases hutc : tm.utc.Valid
    · rw [opensslTmToPosix_valid hutc] at h
      exact ⟨hutc, Except.ok.inj h⟩
    · rw [opensslTmToPosix_invalid hutc] at h
      cases h
  refine ⟨?_, fun tm h => opensslTmToPosix_invalid h, ?_, fun time h => opensslPosixToTm_outside h,
    ?_, ?_⟩
  · intro tm h
    have hrange := instant_inRange h
    obtain ⟨back, hback, hbackValid, hinstant, hwday, hyday, hisdst⟩ :=
      opensslPosixToTm_inRange hrange
    have heq := instant_injective hbackValid h hinstant
    refine ⟨tm.utc.instant, hrange, opensslTmToPosix_valid h, ?_⟩
    rw [hback, tm_eq_of_utc heq hwday hyday hisdst]
  · intro time h
    obtain ⟨tm, htm, htmValid, hinstant, -⟩ := opensslPosixToTm_inRange h
    exact ⟨tm, htmValid, htm, by rw [opensslTmToPosix_valid htmValid, hinstant]⟩
  · intro a b timeA timeB ha hb
    obtain ⟨haValid, rfl⟩ := hvalid ha
    obtain ⟨hbValid, rfl⟩ := hvalid hb
    exact before_iff haValid hbValid
  · intro tm time offsetDay offsetSec htm
    obtain ⟨htmValid, rfl⟩ := hvalid htm
    rw [opensslGmtimeAdj_eq htmValid]
    refine ⟨fun h => ?_, fun h => opensslPosixToTm_outside h⟩
    obtain ⟨sum, hsum, hsumValid, hinstant, -⟩ := opensslPosixToTm_inRange h
    exact ⟨sum, hsum, hsumValid, by rw [opensslTmToPosix_valid hsumValid, hinstant]⟩

end AwsLc
