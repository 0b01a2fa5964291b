import Troe.Lib.Bytes

/-!
# Calendar fields (`troe-kex-runtime`)

The conversion of epoch seconds to calendar fields. Machine integers are integers, and an operation
that leaves its type gives `none`, be it the source's `None` or an overflow.
-/

namespace Troe.Time

open Lib

/-- A value of a type with these bounds. -/
def fit (low high value : ℤ) : Option ℤ := if low ≤ value ∧ value < high then some value else none

abbrev i64 : ℤ → Option ℤ := fit (-2 ^ 63) (2 ^ 63)
abbrev i32 : ℤ → Option ℤ := fit (-2 ^ 31) (2 ^ 31)
abbrev u32 : ℤ → Option ℤ := fit 0 (2 ^ 32)

/-- `floor_divide`, which no divisor above one takes out of its type. -/
def floorDivide (value divisor : ℤ) : ℤ :=
  if value.tmod divisor < 0 then value.tdiv divisor - 1 else value.tdiv divisor

/-- `days_from_civil`. -/
def daysFromCivil (year month day : ℤ) : Option ℤ := do
  let year ← i64 (year - if month ≤ 2 then 1 else 0)
  let era := floorDivide year 400
  let yearOfEra ← u32 (← i64 (year - (← i64 (era * 400))))
  let adjustedMonth ← i32 (month + if 2 < month then -3 else 9)
  let months ← u32 (153 * (← u32 adjustedMonth))
  let dayOfYear ← u32 ((← u32 (months + 2)) / 5 + (← u32 (← i32 (day - 1))))
  let before ← u32 ((← u32 ((← u32 (yearOfEra * 365)) + yearOfEra / 4)) - yearOfEra / 100)
  let dayOfEra ← u32 (before + dayOfYear)
  i64 ((← i64 ((← i64 (era * 146097)) + dayOfEra)) - 719468)

/-- `civil_from_days`: the year, the month and the day. -/
def civilFromDays (days : ℤ) : Option (ℤ × ℤ × ℤ) := do
  let days ← i64 (days + 719468)
  let era := floorDivide days 146097
  let dayOfEra := (u32 (← i64 (days - (← i64 (era * 146097))))).getD 0
  let common ← u32 ((← u32 (dayOfEra - dayOfEra / 1460)) + dayOfEra / 36524)
  let yearOfEra := (← u32 (common - dayOfEra / 146096)) / 365
  let parsedYear ← i64 (yearOfEra + (← i64 (era * 400)))
  let before ← u32 ((← u32 ((← u32 (365 * yearOfEra)) + yearOfEra / 4)) - yearOfEra / 100)
  let dayOfYear ← u32 (dayOfEra - before)
  let monthPrime := (← u32 ((← u32 (5 * dayOfYear)) + 2)) / 153
  let monthDays := (← u32 ((← u32 (153 * monthPrime)) + 2)) / 5
  let day := (i32 (← u32 ((← u32 (dayOfYear - monthDays)) + 1))).getD 1
  let month ← i32 ((i32 monthPrime).getD 0 + if monthPrime < 10 then 3 else -9)
  return (← i64 (parsedYear + if month ≤ 2 then 1 else 0), month, day)

/-- A broken-down time; of the zone only the significant bytes. -/
structure CalendarTime where
  year : ℤ
  month : ℤ
  day : ℤ
  hour : ℤ
  minute : ℤ
  second : ℤ
  weekDay : ℤ
  yearDay : ℤ
  gmtOffset : ℤ
  daylight : ℤ
  zone : Bytes

/-- `fields_from_seconds`. -/
def fieldsFromSeconds (seconds : ℤ) : Option CalendarTime := do
  let days := floorDivide seconds 86400
  let daySeconds ← i64 (seconds - (← i64 (days * 86400)))
  let (year, month, day) ← civilFromDays days
  let weekDay := (i32 ((← i64 (days + 4)).tmod 7)).getD 0
  let weekDay ← if weekDay < 0 then i32 (weekDay + 7) else pure weekDay
  let yearDay ← match daysFromCivil year 1 1 with
    | some start => pure ((i32 (← i64 (days - start))).getD 0)
    | none => pure 0
  return {
    year, month, day, weekDay, yearDay
    hour := (i32 (daySeconds.tdiv 3600)).getD 0
    minute := (i32 ((daySeconds.tmod 3600).tdiv 60)).getD 0
    second := (i32 (daySeconds.tmod 60)).getD 0
    gmtOffset := 0, daylight := 0, zone := [] }

/-! ## Calendar fields without overflow -/

theorem floorDivide_spec {value divisor : ℤ} (h : 0 < divisor) :
    ∃ rest, value = floorDivide value divisor * divisor + rest ∧ 0 ≤ rest ∧ rest < divisor := by
  have hsum := Int.tdiv_mul_add_tmod value divisor
  have hlow := Int.lt_tmod_of_pos value h
  have hhigh := Int.tmod_lt_of_pos value h
  unfold floorDivide
  split_ifs with hneg
  · refine ⟨value.tmod divisor + divisor, ?_, by omega, by omega⟩
    rw [Int.sub_mul]
    omega
  · exact ⟨value.tmod divisor, by omega, by omega, hhigh⟩

theorem fit_eq {low high value : ℤ} (hlow : low ≤ value) (hhigh : value < high) :
    fit low high value = some value := if_pos ⟨hlow, hhigh⟩

theorem fit_bind {β : Type} {low high value : ℤ} {f : ℤ → Option β} (hlow : low ≤ value)
    (hhigh : value < high) : (fit low high value >>= f) = f value := by
  rw [fit_eq hlow hhigh]
  rfl

theorem fit_getD {low high value default : ℤ} (hlow : low ≤ value) (hhigh : value < high) :
    (fit low high value).getD default = value := by
  rw [fit_eq hlow hhigh, Option.getD_some]

/-- The first day of a year that is not too large has a number. -/
theorem daysFromCivil_ok {year : ℤ} (hlow : -2 ^ 40 ≤ year) (hhigh : year ≤ 2 ^ 40) :
    ∃ days, daysFromCivil year 1 1 = some days ∧ -2 ^ 50 ≤ days ∧ days ≤ 2 ^ 50 := by
  obtain ⟨yearOfEra, hyear, hpos, hlt⟩ := @floorDivide_spec (year - 1) 400 (by decide)
  unfold daysFromCivil
  rw [if_pos (by decide), if_neg (by decide), fit_bind (by omega) (by omega)]
  generalize floorDivide (year - 1) 400 = era at *
  rw [hyear]
  dsimp only
  iterate 16 rw [fit_bind (by omega) (by omega)]
  exact ⟨_, fit_eq (by omega) (by omega), by omega, by omega⟩

/-- The year of its era that a day belongs to. -/
theorem yearOfEra_bounds {dayOfEra yearOfEra : ℤ} (hlow : 0 ≤ dayOfEra) (hhigh : dayOfEra < 146097)
    (hyear : yearOfEra =
      (dayOfEra - dayOfEra / 1460 + dayOfEra / 36524 - dayOfEra / 146096) / 365) :
    (0 ≤ yearOfEra ∧ yearOfEra < 400) ∧
      365 * yearOfEra + yearOfEra / 4 - yearOfEra / 100 ≤ dayOfEra ∧
      dayOfEra ≤ 365 * yearOfEra + yearOfEra / 4 - yearOfEra / 100 + 365 := by
  have hcentury : yearOfEra / 100 = 0 ∨ yearOfEra / 100 = 1 ∨ yearOfEra / 100 = 2 ∨
      yearOfEra / 100 = 3 := by omega
  rcases hcentury with h | h | h | h <;> omega

theorem civilFromDays_ok {days : ℤ} (hlow : -2 ^ 47 ≤ days) (hhigh : days ≤ 2 ^ 47) :
    ∃ year month day, civilFromDays days = some (year, month, day) ∧ -2 ^ 40 ≤ year ∧
      year ≤ 2 ^ 40 := by
  obtain ⟨dayOfEra, hdays, hpos, hlt⟩ := @floorDivide_spec (days + 719468) 146097 (by decide)
  unfold civilFromDays
  rw [fit_bind (by omega) (by omega)]
  generalize floorDivide (days + 719468) 146097 = era at *
  rw [hdays]
  dsimp only
  iterate 2 rw [fit_bind (by omega) (by omega)]
  rw [add_sub_cancel_left, fit_getD hpos (by omega)]
  iterate 3 rw [fit_bind (by omega) (by omega)]
  generalize hyear : (dayOfEra - _ + _ - _) / 365 = yearOfEra
  obtain ⟨hyears, hdays⟩ := yearOfEra_bounds hpos hlt hyear.symm
  clear hyear
  iterate 6 rw [fit_bind (by omega) (by omega)]
  generalize hday : dayOfEra - _ = dayOfYear
  iterate 2 rw [fit_bind (by omega) (by omega)]
  generalize hmonth : (5 * dayOfYear + 2) / 153 = monthPrime
  iterate 4 rw [fit_bind (by omega) (by omega)]
  rw [fit_getD (by omega) (by omega), fit_getD (by omega) (by omega)]
  split_ifs
  all_goals
    iterate 2 rw [fit_bind (by omega) (by omega)]
    exact ⟨_, _, _, rfl, by omega, by omega⟩

/-- Seconds from the first whole day of the 64-bit range on have calendar fields, the day of the year
among them without its fallback. -/
theorem fieldsFromSeconds_ok {seconds : ℤ} (hmin : -9223372036854720000 ≤ seconds)
    (hmax : seconds < 2 ^ 63) : ∃ fields, fieldsFromSeconds seconds = some fields ∧
      (daysFromCivil fields.year 1 1).isSome := by
  obtain ⟨daySeconds, hseconds, hpos, hlt⟩ := @floorDivide_spec seconds 86400 (by decide)
  unfold fieldsFromSeconds
  generalize floorDivide seconds 86400 = days at *
  obtain ⟨year, month, day, hcivil, hlow, hhigh⟩ : ∃ year month day, civilFromDays days = _ ∧ _ :=
    civilFromDays_ok (by omega) (by omega)
  obtain ⟨start, hstart, hbefore, hafter⟩ := daysFromCivil_ok hlow hhigh
  have hweek := Int.lt_tmod_of_pos (days + 4) (show (0 : ℤ) < 7 by decide)
  have hweek' := Int.tmod_lt_of_pos (days + 4) (show (0 : ℤ) < 7 by decide)
  dsimp only
  iterate 2 rw [fit_bind (by omega) (by omega)]
  rw [hcivil, Option.bind_eq_bind, Option.bind_some]
  dsimp only
  rw [fit_bind (by omega) (by omega), fit_getD (by omega) (by omega)]
  simp only [hstart]
  split_ifs
  · iterate 2 rw [fit_bind (by omega) (by omega)]
    exact ⟨_, rfl, Option.isSome_of_eq_some hstart⟩
  · rw [pure_bind, fit_bind (by omega) (by omega)]
    exact ⟨_, rfl, Option.isSome_of_eq_some hstart⟩

/-- **No overflow.** 64-bit seconds have calendar fields, the day of the year among them without its
fallback, exactly from the first whole day of the range on. -/
theorem fieldsFromSeconds_total {seconds : ℤ} (hmin : -2 ^ 63 ≤ seconds) (hmax : seconds < 2 ^ 63) :
    (∃ fields, fieldsFromSeconds seconds = some fields ∧
      (daysFromCivil fields.year 1 1).isSome) ↔ -9223372036854720000 ≤ seconds := by
  refine ⟨?_, fun hday => fieldsFromSeconds_ok hday hmax⟩
  rintro ⟨fields, hfields, -⟩
  by_contra hday
  -- the day before begins below the range
  obtain ⟨rest, hseconds, hpos, hlt⟩ := @floorDivide_spec seconds 86400 (by decide)
  have hdays : floorDivide seconds 86400 = -106751991167301 := by omega
  rw [fieldsFromSeconds, hdays] at hfields
  cases hfields

theorem fieldsFromSeconds_total_epoch :
    (∃ fields, fieldsFromSeconds 0 = some fields ∧ fields.year = 1970 ∧ fields.weekDay = 4) ∧
      ¬ ∃ fields, fieldsFromSeconds (-2 ^ 63) = some fields ∧
        (daysFromCivil fields.year 1 1).isSome := by
  obtain ⟨fields, hfields, _⟩ := (@fieldsFromSeconds_total 0 (by decide) (by decide)).mpr (by decide)
  refine ⟨⟨fields, hfields, ?_⟩, fun h => ?_⟩
  · cases hfields
    exact ⟨rfl, rfl⟩
  · exact absurd ((fieldsFromSeconds_total (by decide) (by decide)).mp h) (by decide)

/-- The first second of the 64-bit range overflows. -/
theorem fieldsFromSeconds_overflows : fieldsFromSeconds (-2 ^ 63) = none := by decide

end Troe.Time
