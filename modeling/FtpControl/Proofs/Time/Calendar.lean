import Mathlib.Tactic.IntervalCases
import FtpControl.Time.Calendar

/-!
# The Gregorian calendar, day by day

Every day has its date in the Gregorian calendar, and every date of the calendar is that of its own
day. Day 0 is 1 January 1970, and the date of the next day is the next date.
-/

namespace FtpControl.CivilDate

/-! ## Dates of the calendar -/

def IsLeap (year : Int) : Prop := year % 4 = 0 ∧ (year % 100 = 0 → year % 400 = 0)

instance (year : Int) : Decidable (IsLeap year) := inferInstanceAs (Decidable (_ ∧ _))

def monthLength (year month : Int) : Int :=
  if month = 2 then if IsLeap year then 29 else 28
  else if month = 4 ∨ month = 6 ∨ month = 9 ∨ month = 11 then 30
  else 31

/-- Whether a date is one of the calendar. -/
structure IsGregorian (date : CivilDate) : Prop where
  month : 1 ≤ date.month ∧ date.month ≤ 12
  day : 1 ≤ date.day ∧ date.day ≤ monthLength date.year date.month

/-- The date after a date. -/
def next (date : CivilDate) : CivilDate :=
  if date.day < monthLength date.year date.month then { date with day := date.day + 1 }
  else if date.month < 12 then ⟨date.year, date.month + 1, 1⟩
  else ⟨date.year + 1, 1, 1⟩

/-! ## Days of a cycle -/

/-- A day of a cycle as the centuries, the groups of four years, the years and the days that have
passed. A year has a last day more only at the end of its group, and the last group of a century
only at the end of the cycle. -/
structure Passed (n c g y d : Int) : Prop where
  sum : n = 36524 * c + 1461 * g + 365 * y + d
  centuries : 0 ≤ c ∧ c ≤ 3
  groups : 0 ≤ g ∧ g ≤ 24
  years : 0 ≤ y ∧ y ≤ 3
  days : 0 ≤ d ∧ d ≤ 365
  last : d = 365 → y = 3 ∧ (g = 24 → c = 3)

variable {n c g y d year : Int} {date : CivilDate}

theorem exists_passed (h : 0 ≤ n) (hlt : n < cycleDays) : ∃ c g y d, Passed n c g y d := by
  rw [cycleDays] at hlt
  -- The last day of the cycle begins no fifth century, and that of a group no fifth year.
  obtain ⟨c, hc⟩ : ∃ c, c = n / 36524 - n / 146096 := ⟨_, rfl⟩
  obtain ⟨g, hg⟩ : ∃ g, g = (n - 36524 * c) / 1461 := ⟨_, rfl⟩
  obtain ⟨s, hs⟩ : ∃ s, s = n - 36524 * c - 1461 * g := ⟨_, rfl⟩
  obtain ⟨y, hy⟩ : ∃ y, y = s / 365 - s / 1460 := ⟨_, rfl⟩
  refine ⟨c, g, y, s - 365 * y, ?_, ?_, ?_, ?_, ?_, ?_⟩ <;> omega

theorem Passed.yearOfCycle (h : Passed n c g y d) :
    (n - n / 1460 + n / 36524 - n / 146096) / 365 = 100 * c + 4 * g + y := by
  obtain ⟨hsum, hc, hg, hy, hd, hlast⟩ := h
  have hcenturies : n / 36524 - n / 146096 = c := by
    by_cases hend : n = 146096
    · omega
    · have hcentury : 36524 * c ≤ n ∧ n < 36524 * c + 36524 := by omega
      omega
  have hgroups : n / 1460 = 25 * c + g + (24 * c + g + 365 * y + d) / 1460 := by omega
  -- One more than the groups only in the last days of a group, and always on its last day.
  have hmore : 0 ≤ (24 * c + g + 365 * y + d) / 1460 ∧ (24 * c + g + 365 * y + d) / 1460 ≤ 1 := by
    omega
  omega

theorem Passed.daysBeforeYear (h : Passed n c g y d) :
    daysBeforeYear (100 * c + 4 * g + y) = 36524 * c + 1461 * g + 365 * y := by
  obtain ⟨-, hc, hg, hy, -, -⟩ := h
  rw [CivilDate.daysBeforeYear]
  omega

/-! ## Days of a year -/

/-- Whether a year, begun in March, has a day: the last one only before the month of March of a leap
year. -/
structure HasDay (year d : Int) : Prop where
  bounds : 0 ≤ d ∧ d ≤ 365
  last : d = 365 → IsLeap (year + 1)

/-- The date of a day of a year. -/
def inYear (year d : Int) : CivilDate :=
  let m := (5 * d + 2) / 153
  let month := if m < 10 then m + 3 else m - 9
  ⟨year + (if month ≤ 2 then 1 else 0), month, d - daysBeforeMonth m + 1⟩

/-- The days before a year. -/
def daysBefore (year : Int) : Int := year / 400 * cycleDays + daysBeforeYear (year % 400)

theorem daysBefore_succ (year : Int) :
    daysBefore (year + 1) = daysBefore year + if IsLeap (year + 1) then 366 else 365 := by
  simp only [daysBefore, daysBeforeYear, cycleDays]
  by_cases hcycle : year % 400 = 399
  · have hleap : IsLeap (year + 1) := by
      rw [IsLeap]
      omega
    rw [if_pos hleap]
    omega
  · have hsame : (year + 1) / 400 = year / 400 ∧ (year + 1) % 400 = year % 400 + 1 := by omega
    rw [hsame.1, hsame.2]
    by_cases hleap : IsLeap (year + 1)
    · rw [if_pos hleap]
      rw [IsLeap] at hleap
      omega
    · rw [if_neg hleap]
      rw [IsLeap] at hleap
      omega

/-- The year of a date, begun in March. -/
def marchYear (date : CivilDate) : Int := if date.month ≤ 2 then date.year - 1 else date.year

/-- The months from March on to a month. -/
def sinceMarch (month : Int) : Int := if month ≤ 2 then month + 9 else month - 3

/-- The day of the year that a date is. -/
def dayOfYear (date : CivilDate) : Int :=
  daysBeforeMonth (sinceMarch date.month) + (date.day - 1)

theorem monthLength_bounds (year month : Int) :
    28 ≤ monthLength year month ∧ monthLength year month ≤ 31 := by
  unfold monthLength
  split_ifs <;> omega

theorem monthLength_eq {month : Int} (h : 1 ≤ month ∧ month ≤ 12) (hother : month ≠ 2) :
    monthLength year month =
      daysBeforeMonth (sinceMarch month + 1) - daysBeforeMonth (sinceMarch month) := by
  obtain ⟨hfirst, hlast⟩ := h
  simp only [monthLength, hother, if_false]
  interval_cases month <;> first | rfl | exact absurd rfl hother

theorem monthLength_february (year : Int) :
    monthLength year 2 = if IsLeap year then 29 else 28 := rfl

/-- A month has no more days than there are to the next. -/
theorem monthLength_le (year : Int) {month : Int} (h : 1 ≤ month ∧ month ≤ 12) :
    monthLength year month ≤
      daysBeforeMonth (sinceMarch month + 1) - daysBeforeMonth (sinceMarch month) := by
  by_cases hfebruary : month = 2
  · have hroom : daysBeforeMonth (sinceMarch 2 + 1) - daysBeforeMonth (sinceMarch 2) = 30 := rfl
    rw [hfebruary, monthLength_february, hroom]
    split <;> omega
  · exact (monthLength_eq h hfebruary).le

theorem toDays_eq (date : CivilDate) :
    date.toDays = daysBefore date.marchYear + date.dayOfYear - epochOffset := by
  simp only [toDays, daysBefore, marchYear, dayOfYear, sinceMarch]
  omega

theorem marchYear_inYear (h : HasDay year d) : (inYear year d).marchYear = year := by
  obtain ⟨hd, -⟩ := h
  simp only [marchYear, inYear]
  split_ifs <;> omega

theorem dayOfYear_inYear (h : HasDay year d) : (inYear year d).dayOfYear = d := by
  obtain ⟨hd, -⟩ := h
  simp only [dayOfYear, inYear, sinceMarch, daysBeforeMonth]
  split_ifs <;> omega

theorem sinceMarch_inYear (h : HasDay year d) :
    (1 ≤ (inYear year d).month ∧ (inYear year d).month ≤ 12) ∧
      sinceMarch (inYear year d).month = (5 * d + 2) / 153 := by
  obtain ⟨hd, -⟩ := h
  simp only [inYear, sinceMarch]
  split_ifs <;> omega

theorem isGregorian_inYear (h : HasDay year d) : (inYear year d).IsGregorian := by
  obtain ⟨hmonth, hsince⟩ := sinceMarch_inYear h
  have hday : (inYear year d).day = d - daysBeforeMonth ((5 * d + 2) / 153) + 1 := rfl
  refine ⟨hmonth, ?_⟩
  by_cases hfebruary : (inYear year d).month = 2
  · have hm : (5 * d + 2) / 153 = 11 := by rw [← hsince, hfebruary]; rfl
    have hyear : (inYear year d).year = year + 1 := by simp [inYear, hm]
    rw [hfebruary, monthLength_february, hyear, hday, hm, daysBeforeMonth]
    obtain ⟨hd, hlast⟩ := h
    split
    · omega
    · next hleap =>
        have hno : d ≠ 365 := fun hd => hleap (hlast hd)
        omega
  · rw [monthLength_eq hmonth hfebruary, hsince, hday]
    simp only [daysBeforeMonth]
    omega

/-- A date of the calendar is that of the day of the year that it is. -/
theorem inYear_dayOfYear (h : date.IsGregorian) : inYear date.marchYear date.dayOfYear = date := by
  obtain ⟨year, month, day⟩ := date
  obtain ⟨hmonth, hday⟩ := h
  simp only at hmonth hday
  have hroom := monthLength_le year hmonth
  have hm : (5 * dayOfYear ⟨year, month, day⟩ + 2) / 153 = sinceMarch month := by
    simp only [dayOfYear, daysBeforeMonth] at hroom ⊢
    omega
  simp only [inYear, hm]
  simp only [marchYear, dayOfYear, sinceMarch, CivilDate.mk.injEq]
  split_ifs <;> omega

theorem hasDay_dayOfYear (h : date.IsGregorian) : HasDay date.marchYear date.dayOfYear := by
  obtain ⟨year, month, day⟩ := date
  obtain ⟨hmonth, hday⟩ := h
  simp only at hmonth hday
  by_cases hfebruary : month = 2
  · subst hfebruary
    have hof : dayOfYear ⟨year, 2, day⟩ = 337 + (day - 1) := rfl
    have hmarch : marchYear ⟨year, 2, day⟩ + 1 = year := Int.sub_add_cancel ..
    rw [monthLength_february] at hday
    constructor
    · rw [hof]
      split at hday <;> omega
    · intro hd
      rw [hof] at hd
      rw [hmarch]
      by_contra hleap
      rw [if_neg hleap] at hday
      omega
  · have hbefore : 0 ≤ dayOfYear ⟨year, month, day⟩ ∧ dayOfYear ⟨year, month, day⟩ ≤ 336 := by
      rw [monthLength_eq hmonth hfebruary] at hday
      simp only [dayOfYear, sinceMarch, daysBeforeMonth] at hday ⊢
      split_ifs at hday ⊢ <;> omega
    exact ⟨by omega, fun hd => by omega⟩

/-! ## Every day -/

theorem Passed.hasDay (h : Passed n c g y d) (cycle : Int) :
    HasDay (cycle * 400 + (100 * c + 4 * g + y)) d := by
  obtain ⟨-, hc, hg, hy, hd, hlast⟩ := h
  refine ⟨hd, fun hd => ?_⟩
  rw [IsLeap]
  omega

theorem exists_passed_of_hasDay (h : HasDay year d) :
    ∃ cycle n c g y, Passed n c g y d ∧ year = cycle * 400 + (100 * c + 4 * g + y) := by
  obtain ⟨hd, hlast⟩ := h
  rw [IsLeap] at hlast
  refine ⟨year / 400, _, year % 400 / 100, year % 100 / 4, year % 4,
    ⟨rfl, ?_, ?_, ?_, hd, ?_⟩, ?_⟩ <;> omega

theorem Passed.daysBefore_eq (h : Passed n c g y d) (cycle : Int) :
    daysBefore (cycle * 400 + (100 * c + 4 * g + y)) + d = cycle * cycleDays + n := by
  have hbefore := h.daysBeforeYear
  obtain ⟨hsum, hc, hg, hy, -, -⟩ := h
  have hcycle : (cycle * 400 + (100 * c + 4 * g + y)) / 400 = cycle ∧
      (cycle * 400 + (100 * c + 4 * g + y)) % 400 = 100 * c + 4 * g + y := by omega
  rw [daysBefore, hcycle.1, hcycle.2, hbefore]
  omega

theorem Passed.bounds (h : Passed n c g y d) : 0 ≤ n ∧ n < cycleDays := by
  obtain ⟨hsum, hc, hg, hy, hd, hlast⟩ := h
  rw [cycleDays]
  omega

theorem Passed.ofDays_eq (h : Passed n c g y d) (cycle : Int) :
    ofDays (cycle * cycleDays + n - epochOffset) =
      inYear (cycle * 400 + (100 * c + 4 * g + y)) d := by
  have hcycle : (cycle * cycleDays + n) / cycleDays = cycle := by
    rw [Int.add_comm, Int.add_mul_ediv_right _ _ (by decide),
      Int.ediv_eq_zero_of_lt h.bounds.1 h.bounds.2, Int.zero_add]
  have hday : (cycle * cycleDays + n) % cycleDays = n := by
    rw [Int.add_comm, Int.add_mul_emod_self_right, Int.emod_eq_of_lt h.bounds.1 h.bounds.2]
  have hrest : n - CivilDate.daysBeforeYear (100 * c + 4 * g + y) = d := by
    rw [h.daysBeforeYear, h.sum]
    omega
  simp only [ofDays, Int.sub_add_cancel, hcycle, hday, h.yearOfCycle, hrest, inYear,
    CivilDate.mk.injEq, and_self, and_true]
  rw [Int.add_comm (100 * c + 4 * g + y)]

/-- The date of a day is that of the day of the year that it is. -/
theorem ofDays_eq (h : HasDay year d) :
    ofDays (daysBefore year + d - epochOffset) = inYear year d := by
  obtain ⟨cycle, n, c, g, y, hpassed, rfl⟩ := exists_passed_of_hasDay h
  rw [hpassed.daysBefore_eq, hpassed.ofDays_eq]

/-- Every day is a day of a year. -/
theorem exists_hasDay (days : Int) :
    ∃ year d, HasDay year d ∧ days = daysBefore year + d - epochOffset := by
  obtain ⟨c, g, y, d, h⟩ := exists_passed
    (Int.emod_nonneg (days + epochOffset) (show cycleDays ≠ 0 by decide))
    (Int.emod_lt_of_pos _ (by decide))
  refine ⟨_, d, h.hasDay ((days + epochOffset) / cycleDays), ?_⟩
  rw [h.daysBefore_eq, Int.mul_comm, Int.mul_ediv_add_emod, Int.add_sub_cancel]

/-- Every day has a date of the calendar. -/
theorem isGregorian_ofDays (days : Int) : (ofDays days).IsGregorian := by
  obtain ⟨year, d, h, rfl⟩ := exists_hasDay days
  rw [ofDays_eq h]
  exact isGregorian_inYear h

/-- The date of a day is that of no other. -/
theorem toDays_ofDays (days : Int) : (ofDays days).toDays = days := by
  obtain ⟨year, d, h, rfl⟩ := exists_hasDay days
  rw [ofDays_eq h, toDays_eq, marchYear_inYear h, dayOfYear_inYear h]

/-- Every date of the calendar is that of its day. -/
theorem ofDays_toDays (h : date.IsGregorian) : ofDays date.toDays = date := by
  rw [toDays_eq, ofDays_eq (hasDay_dayOfYear h), inYear_dayOfYear h]

theorem isGregorian_next (h : date.IsGregorian) : date.next.IsGregorian := by
  obtain ⟨hmonth, hday⟩ := h
  unfold next
  split_ifs with hmore hyear
  · exact ⟨hmonth, by simp only; omega⟩
  · have hbounds := monthLength_bounds date.year (date.month + 1)
    exact ⟨by simp only; omega, by simp only; omega⟩
  · have hbounds := monthLength_bounds (date.year + 1) 1
    exact ⟨by simp only; omega, by simp only; omega⟩

theorem toDays_next (h : date.IsGregorian) : date.next.toDays = date.toDays + 1 := by
  obtain ⟨year, month, day⟩ := date
  obtain ⟨hmonth, hday⟩ := h
  simp only at hmonth hday
  rw [toDays_eq, toDays_eq]
  simp only [next]
  split_ifs with hmore hyear
  · simp only [marchYear, dayOfYear]
    omega
  · have hend : day = monthLength year month := by omega
    by_cases hfebruary : month = 2
    · subst hfebruary
      have hsucc := daysBefore_succ (year - 1)
      rw [Int.sub_add_cancel] at hsucc
      have hmarch : dayOfYear ⟨year, 2 + 1, 1⟩ = 0 := rfl
      have hlast : dayOfYear ⟨year, 2, day⟩ = 337 + (day - 1) := rfl
      have hthis : marchYear ⟨year, 2, day⟩ = year - 1 := rfl
      have hnext : marchYear ⟨year, 2 + 1, 1⟩ = year := rfl
      rw [hmarch, hlast, hthis, hnext, hsucc, hend, monthLength_february]
      split <;> omega
    · rw [monthLength_eq hmonth hfebruary] at hend
      simp only [marchYear, dayOfYear, sinceMarch, daysBeforeMonth] at hend ⊢
      split_ifs at hend ⊢ <;> omega
  · have hdecember : month = 12 := by omega
    subst hdecember
    have hend : day = 31 := Int.le_antisymm hday.2 (Int.not_lt.mp hmore)
    subst hend
    have hnew : dayOfYear ⟨year + 1, 1, 1⟩ = 306 := rfl
    have hlast : dayOfYear ⟨year, 12, 31⟩ = 305 := rfl
    have hthis : marchYear ⟨year, 12, 31⟩ = year := rfl
    have hnext : marchYear ⟨year + 1, 1, 1⟩ = year := Int.add_sub_cancel ..
    rw [hnew, hlast, hthis, hnext]
    omega

/-- The date of the next day is the next date. -/
theorem ofDays_succ (days : Int) : ofDays (days + 1) = (ofDays days).next := by
  have h := isGregorian_ofDays days
  rw [← ofDays_toDays (isGregorian_next h), toDays_next h, toDays_ofDays]

example : ofDays 0 = ⟨1970, 1, 1⟩ := by decide

end FtpControl.CivilDate
