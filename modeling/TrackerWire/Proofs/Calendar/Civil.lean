import Mathlib.Tactic.IntervalCases
import TrackerWire.Calendar

/-!
# Dates and day numbers

Days are numbered through all years without a gap. Years are counted from March, so that the leap
day is the last of its year: a day number is the start of such a year (`yearStart`) and the day in
it (`marchDay`).

* `dateOf_dayNumber`: the date of a day number is the date it is the number of.
* `dayNumber_lt`: day numbers grow with the date.
* `date_clock_of_time`, `time_lt_iff`: so a time gives back its date and its time of day, and times
  compare as these do.
-/
namespace TrackerWire.Calendar

/-! ## Real dates and times of day -/

theorem Date.isReal_iff (date : Date) :
    date.isReal = true ↔ 1 ≤ date.day ∧ date.day ≤ daysInMonth date.year date.month := by
  rw [isReal, Bool.and_eq_true, decide_eq_true_iff, decide_eq_true_iff]

theorem Clock.isReal_iff (clock : Clock) :
    clock.isReal = true ↔ clock.hour < 24 ∧ clock.minute < 60 ∧ clock.second < 60 := by
  simp only [isReal, Bool.and_eq_true, decide_eq_true_iff, and_assoc]

theorem daysInMonth_of_not {year : Int} {month : Nat} (h : ¬ (1 ≤ month ∧ month ≤ 12)) :
    daysInMonth year month = 0 := by
  unfold daysInMonth
  split <;> first | rfl | omega

theorem Date.month_bounds {date : Date} (h : date.isReal = true) :
    1 ≤ date.month ∧ date.month ≤ 12 := by
  refine Classical.not_not.mp fun hnot => ?_
  have hday := date.isReal_iff.mp h
  rw [daysInMonth_of_not hnot] at hday
  omega

theorem time?_eq_some {date : Date} {clock : Clock} {time : Time} :
    time? date clock = some time ↔ date.isReal = true ∧ clock.isReal = true ∧
      time = dayNumber date * 86400 + secondOfDay clock := by
  rw [time?, Option.ite_none_right_eq_some, Bool.and_eq_true, Option.some.injEq, and_assoc,
    @eq_comm _ time]

/-! ## Years from March -/

def leapDay (year : Int) : Int := if isLeapYear year then 1 else 0

/-- The day number of the first of March. -/
def yearStart (year : Int) : Int :=
  year / 400 * cycleDays + (year % 400 * 365 + year % 400 / 4 - year % 400 / 100) - epochDay

/-- The year from March that a date is in. -/
def Date.marchYear (date : Date) : Int := if date.month ≤ 2 then date.year - 1 else date.year

/-- The number of the month, March being zero. -/
def Date.marchMonth (date : Date) : Int := ((date.month + 9) % 12 : Nat)

/-- The days before a month of the year from March. -/
def monthStart (month : Int) : Int := (153 * month + 2) / 5

/-- The number of the day in the year from March. -/
def Date.marchDay (date : Date) : Int := monthStart date.marchMonth + date.day - 1

theorem dayNumber_eq (date : Date) :
    dayNumber date = yearStart date.marchYear + date.marchDay := by
  simp only [dayNumber, yearStart, Date.marchDay, monthStart, Date.marchYear, Date.marchMonth]
  omega

theorem yearStart_succ (year : Int) :
    yearStart (year + 1) = yearStart year + 365 + leapDay (year + 1) := by
  simp only [yearStart, leapDay, isLeapYear, cycleDays, Bool.and_eq_true, Bool.or_eq_true,
    decide_eq_true_eq]
  split <;> omega

/-- The days of a real date are within its month, and those of its month within the year. -/
theorem Date.marchMonth_bounds {date : Date} (h : date.isReal = true) :
    0 ≤ date.marchMonth ∧ date.marchMonth ≤ 11 ∧ 1 ≤ date.day ∧
      (date.marchMonth ≤ 10 → monthStart date.marchMonth + date.day ≤
        monthStart (date.marchMonth + 1)) ∧
      (date.marchMonth = 11 → (date.day : Int) ≤ 28 + leapDay (date.marchYear + 1)) := by
  obtain ⟨hleast, hmost⟩ := month_bounds h
  obtain ⟨hday, hlength⟩ := date.isReal_iff.mp h
  obtain ⟨year, month, day⟩ := date
  simp only [marchMonth, marchYear, monthStart, leapDay] at *
  have hleap : year - 1 + 1 = year := by omega
  interval_cases month
  all_goals
    simp only [daysInMonth, Nat.reduceLeDiff, if_true, hleap] at *
    first
      | omega
      | split at hlength <;> simp_all

/-- The starts of the years from March are a leap day or none more than 365 days apart. -/
theorem yearStart_le {year year' : Int} (h : year < year') :
    yearStart year + 365 + leapDay (year + 1) ≤ yearStart year' := by
  obtain ⟨years, rfl⟩ := Int.le.dest (Int.add_one_le_of_lt h)
  clear h
  induction years with
  | zero => exact Int.le_of_eq (by rw [← yearStart_succ, Int.natCast_zero, Int.add_zero])
  | succ years ih =>
    have hleap : 0 ≤ leapDay (year + 1 + years + 1) := by unfold leapDay; split <;> decide
    have hnext := yearStart_succ (year + 1 + years)
    rw [Int.natCast_succ, ← Int.add_assoc]
    omega

theorem Date.marchDay_bounds {date : Date} (h : date.isReal = true) :
    0 ≤ date.marchDay ∧ date.marchDay ≤ 364 + leapDay (date.marchYear + 1) := by
  obtain ⟨hleast, hmost, hday, hmonth, hlast⟩ := marchMonth_bounds h
  have hleap : 0 ≤ leapDay (date.marchYear + 1) := by unfold leapDay; split <;> decide
  simp only [marchDay, monthStart] at *
  omega

/-! ## The date of a day number -/

/-- A leap day makes a year longer only in the fourth year of four, and not in the last of a
century but the last of the cycle. -/
theorem leapDay_cases (year : Int) : leapDay (year + 1) = 0 ∨ leapDay (year + 1) = 1 ∧
    year % 4 = 3 ∧ (year % 100 ≠ 99 ∨ year % 400 = 399) := by
  unfold leapDay isLeapYear
  simp only [Bool.and_eq_true, Bool.or_eq_true, decide_eq_true_eq]
  split
  · exact .inr ⟨rfl, by omega⟩
  · exact .inl rfl

/-- The year of a day of the cycle. The divisors are the lengths of four years and of a century,
each less a day, and of the cycle, so each quotient is one more than it should be on the last days
only, where the others make up for it. -/
theorem yearOfCycle_eq {year day n : Int} (hyear : 0 ≤ year ∧ year < 400) (hleast : 0 ≤ day)
    (hmost : day ≤ 364 ∨ day = 365 ∧ year % 4 = 3 ∧ (year % 100 ≠ 99 ∨ year = 399))
    (hn : n = year * 365 + year / 4 - year / 100 + day) :
    (n - n / 1460 + n / 36524 - n / 146096) / 365 = year := by
  obtain ⟨a, b, c, ha, hb, hc, rfl⟩ : ∃ a b c : Int, (0 ≤ a ∧ a ≤ 3) ∧ (0 ≤ b ∧ b ≤ 24) ∧
      (0 ≤ c ∧ c ≤ 3) ∧ year = 100 * a + 4 * b + c :=
    ⟨year / 100, year % 100 / 4, year % 4, by omega, by omega, by omega, by omega⟩
  have hlast : day ≤ 364 ∨ day = 365 ∧ c = 3 ∧ (b ≤ 23 ∨ a = 3) := by omega
  have hdays : n = 36524 * a + 1461 * b + 365 * c + day := by omega
  clear hyear hmost hn
  have hcentury : n / 36524 - n / 146096 = a := by
    by_cases hend : n = 146096
    · omega
    · have hrest : 1461 * b + 365 * c + day < 36524 := by omega
      omega
  have hfour : n / 1460 = 25 * a + b + (24 * a + b + 365 * c + day) / 1460 := by omega
  have hcorrection : 0 ≤ day - (24 * a + b + 365 * c + day) / 1460 ∧
      day - (24 * a + b + 365 * c + day) / 1460 ≤ 364 := by omega
  omega

theorem dateOf_eq {year day : Int} (hleast : 0 ≤ day) (hmost : day ≤ 364 + leapDay (year + 1)) :
    dateOf (yearStart year + day) =
      let month := (5 * day + 2) / 153
      let civil := if month < 10 then month + 3 else month - 9
      ⟨year + if civil ≤ 2 then 1 else 0, civil.toNat, (day - monthStart month + 1).toNat⟩ := by
  have hleap := leapDay_cases year
  have hday : yearStart year + day + epochDay = year / 400 * cycleDays +
      (year % 400 * 365 + year % 400 / 4 - year % 400 / 100 + day) := by
    simp only [yearStart]
    omega
  generalize hn : year % 400 * 365 + year % 400 / 4 - year % 400 / 100 + day = n at hday
  have hyear : (n - n / 1460 + n / 36524 - n / 146096) / 365 = year % 400 :=
    yearOfCycle_eq (by omega) hleast (by omega) hn.symm
  have hbounds : 0 ≤ n ∧ n < cycleDays := by
    simp only [cycleDays]
    omega
  have hcycle : (yearStart year + day + epochDay) / cycleDays = year / 400 := by
    rw [hday]
    simp only [cycleDays] at hbounds ⊢
    omega
  have hrest : (yearStart year + day + epochDay) % cycleDays = n := by
    rw [hday]
    simp only [cycleDays] at hbounds ⊢
    omega
  have hdayOfYear : n - (365 * (year % 400) + year % 400 / 4 - year % 400 / 100) = day := by
    rw [← hn]
    omega
  have hcivil : year % 400 + year / 400 * 400 = year := by omega
  simp only [dateOf, hcycle, hrest, hyear, hdayOfYear, hcivil]
  rfl

/-- **The date of the day number of a date is the date.** -/
theorem dateOf_dayNumber {date : Date} (h : date.isReal = true) :
    dateOf (dayNumber date) = date := by
  obtain ⟨hleast, hmost⟩ := date.marchDay_bounds h
  obtain ⟨hfirst, hlast, hday, hmonth, hleap⟩ := date.marchMonth_bounds h
  obtain ⟨hjanuary, hdecember⟩ := date.month_bounds h
  have hleapDay := leapDay_cases date.marchYear
  have hmarch : (5 * date.marchDay + 2) / 153 = date.marchMonth := by
    simp only [Date.marchDay, monthStart] at *
    generalize date.marchMonth = month at *
    interval_cases month <;> omega
  have hcivil : (if date.marchMonth < 10 then date.marchMonth + 3 else date.marchMonth - 9) =
      date.month := by
    simp only [Date.marchMonth]
    omega
  have hyear : (date.marchYear + if (date.month : Int) ≤ 2 then 1 else 0) = date.year := by
    simp only [Date.marchYear]
    omega
  have hdayOfMonth : date.marchDay - monthStart date.marchMonth + 1 = date.day := by
    simp only [Date.marchDay]
    omega
  rw [dayNumber_eq, dateOf_eq hleast hmost]
  simp only [hmarch, hcivil, hyear, hdayOfMonth, Int.toNat_natCast]

/-! ## The order of dates -/

/-- The earlier date by year, month and day. -/
def Date.Before (a b : Date) : Prop :=
  a.year < b.year ∨ a.year = b.year ∧ (a.month < b.month ∨ a.month = b.month ∧ a.day < b.day)

theorem monthStart_le {month month' : Int} (h : month < month') :
    monthStart (month + 1) ≤ monthStart month' := by
  unfold monthStart
  omega

/-- **The earlier date has the smaller number.** -/
theorem dayNumber_lt {a b : Date} (ha : a.isReal = true) (hb : b.isReal = true)
    (h : a.Before b) : dayNumber a < dayNumber b := by
  obtain ⟨-, hmostA⟩ := a.marchDay_bounds ha
  obtain ⟨hleastB, -⟩ := b.marchDay_bounds hb
  obtain ⟨-, -, hdayA, hmonthA, -⟩ := a.marchMonth_bounds ha
  obtain ⟨-, hlastB, hdayB, -, -⟩ := b.marchMonth_bounds hb
  obtain ⟨hjanuaryA, hdecemberA⟩ := a.month_bounds ha
  obtain ⟨hjanuaryB, hdecemberB⟩ := b.month_bounds hb
  -- the order is the same when years are counted from March
  have hmarch : a.marchYear < b.marchYear ∨ a.marchYear = b.marchYear ∧
      (a.marchMonth < b.marchMonth ∨ a.marchMonth = b.marchMonth ∧ a.day < b.day) := by
    simp only [Date.Before, Date.marchYear, Date.marchMonth] at *
    omega
  rw [dayNumber_eq, dayNumber_eq]
  rcases hmarch with hyear | ⟨hyear, hmonth | ⟨hmonth, hday⟩⟩
  · have hstart := yearStart_le hyear
    omega
  · have hstart := monthStart_le hmonth
    have hwithin := hmonthA (by omega)
    rw [hyear]
    simp only [Date.marchDay]
    omega
  · rw [hyear]
    simp only [Date.marchDay, hmonth]
    omega

theorem Date.before_total (a b : Date) : a.Before b ∨ a = b ∨ b.Before a := by
  obtain ⟨year, month, day⟩ := a
  obtain ⟨year', month', day'⟩ := b
  simp only [Before, mk.injEq]
  omega

/-! ## Times -/

/-- The earlier time of day by hour, minute and second. -/
def Clock.Before (a b : Clock) : Prop :=
  a.hour < b.hour ∨ a.hour = b.hour ∧
    (a.minute < b.minute ∨ a.minute = b.minute ∧ a.second < b.second)

theorem Clock.before_total (a b : Clock) : a.Before b ∨ a = b ∨ b.Before a := by
  obtain ⟨hour, minute, second⟩ := a
  obtain ⟨hour', minute', second'⟩ := b
  simp only [Before, mk.injEq]
  omega

section
variable {date date' : Date} {clock clock' : Clock} {time time' : Time}

theorem secondOfDay_bounds (h : clock.isReal = true) :
    0 ≤ secondOfDay clock ∧ secondOfDay clock < 86400 := by
  have hreal := clock.isReal_iff.mp h
  simp only [secondOfDay]
  omega

/-- **A time has the date and the time of day that it was made of.** -/
theorem date_clock_of_time (h : time? date clock = some time) :
    Calendar.date time = date ∧ Calendar.clock time = clock := by
  obtain ⟨hdate, hclock, rfl⟩ := time?_eq_some.mp h
  obtain ⟨hleast, hmost⟩ := secondOfDay_bounds hclock
  obtain ⟨-, hminute, hsecond⟩ := clock.isReal_iff.mp hclock
  have hday : (dayNumber date * 86400 + secondOfDay clock) / 86400 = dayNumber date := by omega
  have hrest : (dayNumber date * 86400 + secondOfDay clock) % 86400 = secondOfDay clock := by omega
  refine ⟨?_, ?_⟩
  · rw [Calendar.date, hday, dateOf_dayNumber hdate]
  · obtain ⟨hour, minute, second⟩ := clock
    simp only [Calendar.clock, hrest, Clock.mk.injEq]
    simp only [secondOfDay] at hminute hsecond ⊢
    omega

theorem time_lt (h : time? date clock = some time) (h' : time? date' clock' = some time')
    (hbefore : date.Before date' ∨ date = date' ∧ clock.Before clock') : time < time' := by
  obtain ⟨hdate, hclock, rfl⟩ := time?_eq_some.mp h
  obtain ⟨hdate', hclock', rfl⟩ := time?_eq_some.mp h'
  show (_ : Int) < _
  rcases hbefore with hbefore | ⟨rfl, hbefore⟩
  · have hday := dayNumber_lt hdate hdate' hbefore
    have hbounds := secondOfDay_bounds hclock
    have hbounds' := secondOfDay_bounds hclock'
    omega
  · have hreal := clock.isReal_iff.mp hclock
    have hreal' := clock'.isReal_iff.mp hclock'
    simp only [Clock.Before, secondOfDay] at *
    omega

/-- **Times compare as date and time of day do.** -/
theorem time_lt_iff (h : time? date clock = some time) (h' : time? date' clock' = some time') :
    time < time' ↔ date.Before date' ∨ date = date' ∧ clock.Before clock' := by
  refine ⟨fun hlt => ?_, time_lt h h'⟩
  rcases date.before_total date' with hdate | rfl | hdate
  · exact .inl hdate
  · rcases clock.before_total clock' with hclock | rfl | hclock
    · exact .inr ⟨rfl, hclock⟩
    · rw [h] at h'
      cases h'
      exact absurd hlt (Int.lt_irrefl _)
    · exact absurd hlt (Int.lt_asymm (time_lt h' h (.inr ⟨rfl, hclock⟩)))
  · exact absurd hlt (Int.lt_asymm (time_lt h' h (.inl hdate)))

end

end TrackerWire.Calendar
