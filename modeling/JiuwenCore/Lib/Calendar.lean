import Mathlib.Data.Int.Basic

/-!
# Dates and instants

An instant is a number of seconds since the beginning of 1970, in UTC. A year is counted from
its March, so that the day a leap year adds is its last one.
-/

namespace JiuwenCore.Calendar

/-- A broken-down time. The months are counted from 0, which is January. -/
structure Civil where
  year : Int
  month : Int
  day : Int
  hour : Int
  minute : Int
  second : Int
  deriving DecidableEq, Repr

/-! ## Days -/

/-- The days from March of the year 0 to March of a year. -/
def daysBeforeYear (year : Int) : Int := 365 * year + year / 4 - year / 100 + year / 400

/-- The days from the first of March to the first day of a month, counted from March. -/
def daysBeforeMonth (month : Int) : Int := (153 * month + 2) / 5

/-- The days from the beginning of 1970 to a date; a month outside its year is one of another. -/
def dayNumber (year month day : Int) : Int :=
  daysBeforeYear (year + (month - 2) / 12) + daysBeforeMonth ((month - 2) % 12) + (day - 1) - 719468

/-- A year from March on, and the day in it: by periods of 400, 100, 4 years and one year. -/
def yearAndDay (days : Int) : Int × Int :=
  let century := min 3 (days % 146097 / 36524)
  let inCentury := days % 146097 - 36524 * century
  let one := min 3 (inCentury % 1461 / 365)
  (400 * (days / 146097) + 100 * century + 4 * (inCentury / 1461) + one,
    inCentury % 1461 - 365 * one)

/-- The year, month and day of a number of days since the beginning of 1970. -/
def dateOf (days : Int) : Int × Int × Int :=
  let (year, day) := yearAndDay (days + 719468)
  let month := (5 * day + 2) / 153
  (year + (month + 2) / 12, (month + 2) % 12, day - daysBeforeMonth month + 1)

theorem daysBeforeYear_parts {era century four one : Int} (hcentury : 0 ≤ century ∧ century ≤ 3)
    (hfour : 0 ≤ four ∧ four ≤ 24) (hone : 0 ≤ one ∧ one ≤ 3) :
    daysBeforeYear (400 * era + 100 * century + 4 * four + one) =
      146097 * era + 36524 * century + 1461 * four + 365 * one := by
  have hfours : (400 * era + 100 * century + 4 * four + one) / 4 =
      100 * era + 25 * century + four := by omega
  have hcenturies : (400 * era + 100 * century + 4 * four + one) / 100 = 4 * era + century := by
    omega
  have heras : (400 * era + 100 * century + 4 * four + one) / 400 = era := by omega
  rw [daysBeforeYear, hfours, hcenturies, heras]
  omega

theorem yearAndDay_spec (days : Int) :
    daysBeforeYear (yearAndDay days).1 + (yearAndDay days).2 = days ∧
      0 ≤ (yearAndDay days).2 ∧ (yearAndDay days).2 ≤ 365 := by
  rw [yearAndDay]
  simp only
  generalize hcentury : min 3 (days % 146097 / 36524) = century
  generalize hin : days % 146097 - 36524 * century = inCentury
  generalize hone : min 3 (inCentury % 1461 / 365) = one
  have hdays : days = 146097 * (days / 146097) + days % 146097 := by omega
  have hcentury' : 0 ≤ century ∧ century ≤ 3 := by omega
  have hfour : 0 ≤ inCentury / 1461 ∧ inCentury / 1461 ≤ 24 := by omega
  have hone' : 0 ≤ one ∧ one ≤ 3 := by omega
  rw [daysBeforeYear_parts hcentury' hfour hone']
  omega

/-- A date is in its month, and the days up to it are the number it comes from. -/
theorem dateOf_spec (days : Int) :
    dayNumber (dateOf days).1 (dateOf days).2.1 (dateOf days).2.2 = days ∧
      0 ≤ (dateOf days).2.1 ∧ (dateOf days).2.1 < 12 ∧
      1 ≤ (dateOf days).2.2 ∧ (dateOf days).2.2 ≤ 31 := by
  have hspec := yearAndDay_spec (days + 719468)
  rw [dateOf]
  generalize yearAndDay (days + 719468) = found at hspec ⊢
  obtain ⟨year, day⟩ := found
  simp only at hspec ⊢
  generalize hmonth : (5 * day + 2) / 153 = month
  have hrange : 0 ≤ month ∧ month ≤ 11 := by omega
  have hyear : year + (month + 2) / 12 + ((month + 2) % 12 - 2) / 12 = year := by omega
  have hfrom : ((month + 2) % 12 - 2) % 12 = month := by omega
  rw [dayNumber, hyear, hfrom, daysBeforeMonth]
  omega

/-! ## Instants -/

/-- The instant of a broken-down time in UTC. -/
def Civil.instant (t : Civil) : Int :=
  dayNumber t.year t.month t.day * 86400 + t.hour * 3600 + t.minute * 60 + t.second

/-- The broken-down time of an instant in UTC. -/
def utc (instant : Int) : Civil :=
  let (year, month, day) := dateOf (instant / 86400)
  let second := instant % 86400
  { year := year
    month := month
    day := day
    hour := second / 3600
    minute := second % 3600 / 60
    second := second % 60 }

/-- The day of the week, counted from Sunday. -/
def weekday (instant : Int) : Int := (instant / 86400 + 4) % 7

/-- What a clock and a calendar can show. -/
structure Civil.Shown (t : Civil) : Prop where
  month : 0 ≤ t.month ∧ t.month < 12
  day : 1 ≤ t.day ∧ t.day ≤ 31
  hour : 0 ≤ t.hour ∧ t.hour < 24
  minute : 0 ≤ t.minute ∧ t.minute < 60
  second : 0 ≤ t.second ∧ t.second < 60

theorem utc_shown (instant : Int) : (utc instant).Shown := by
  obtain ⟨-, hmonth, hyear, hday, hlast⟩ := dateOf_spec (instant / 86400)
  constructor
  · exact ⟨hmonth, hyear⟩
  · exact ⟨hday, hlast⟩
  all_goals
    simp only [utc]
    omega

@[simp] theorem instant_utc (instant : Int) : (utc instant).instant = instant := by
  have hdays := (dateOf_spec (instant / 86400)).1
  simp only [utc, Civil.instant, hdays]
  omega

example : utc 0 = ⟨1970, 0, 1, 0, 0, 0⟩ := by decide
example : utc 1709251199 = ⟨2024, 1, 29, 23, 59, 59⟩ := by decide
example : weekday 1709251199 = 4 := by decide

end JiuwenCore.Calendar
