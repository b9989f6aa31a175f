import Mathlib.Algebra.Ring.Int.Defs
import Mathlib.Tactic.IntervalCases
import ServerScript.Calendar.Moment

/-! Days and dates. Years are counted from March on, so that a leap day ends its year: the days
before a counted year are a sum of quotients, every day lies in one counted year, and a month of
it is found by one division. The date of a day number and the day number of a date undo each
other, for every day and for every date that the calendar has. -/
namespace ServerScript.Calendar

def daysBefore (year : Int) : Int := 365 * year + year / 4 - year / 100 + year / 400

theorem daysBefore_lt {a b : Int} (lt : a < b) : daysBefore a + 365 ≤ daysBefore b := by
  unfold daysBefore
  omega

theorem daysBefore_add_cycles (year k : Int) :
    daysBefore (year + k * 400) = daysBefore year + 146097 * k := by
  unfold daysBefore
  omega

def LiesIn (n year : Int) : Prop := daysBefore year ≤ n ∧ n < daysBefore (year + 1)

theorem LiesIn.unique {n a b : Int} (inA : LiesIn n a) (inB : LiesIn n b) : a = b := by
  have le {a b : Int} (inA : LiesIn n a) (inB : LiesIn n b) : a ≤ b := by
    by_contra lt
    rcases (show b + 1 = a ∨ b + 1 < a by omega) with rfl | later
    · exact absurd inA.1 (Int.not_le.mpr inB.2)
    · have := daysBefore_lt later
      have := inA.1
      have := inB.2
      omega
  exact Int.le_antisymm (le inA inB) (le inB inA)

theorem LiesIn.add_cycles {n year : Int} (k : Int) (inYear : LiesIn n year) :
    LiesIn (n + 146097 * k) (year + k * 400) := by
  have next : year + k * 400 + 1 = year + 1 + k * 400 := by omega
  obtain ⟨low, high⟩ := inYear
  rw [LiesIn, next, daysBefore_add_cycles, daysBefore_add_cycles]
  omega

/-- The place of a day in a cycle of four hundred years: whole centuries, whole spans of four
years, whole years and days. Only the last year of a span has a 366th day, and of those that end
a century only the last one. -/
structure CyclePlace where
  century : Int
  span : Int
  year : Int
  day : Int
  century_mem : 0 ≤ century ∧ century ≤ 3
  span_mem : 0 ≤ span ∧ span ≤ 24
  year_mem : 0 ≤ year ∧ year ≤ 3
  day_mem : 0 ≤ day ∧ day ≤ 365
  leap : day = 365 → year = 3 ∧ (span = 24 → century = 3)

namespace CyclePlace

def number (p : CyclePlace) : Int := 36524 * p.century + 1461 * p.span + 365 * p.year + p.day

def years (p : CyclePlace) : Int := 100 * p.century + 4 * p.span + p.year

theorem exists_number_eq {n : Int} (low : 0 ≤ n) (high : n < 146097) :
    ∃ p : CyclePlace, p.number = n := by
  -- The last day of a cycle and the last one of a span would start a fifth century or year.
  obtain ⟨century, inCentury, n_eq, century_mem, inCentury_mem, ends⟩ :
      ∃ c r : Int, n = 36524 * c + r ∧ (0 ≤ c ∧ c ≤ 3) ∧ (0 ≤ r ∧ r ≤ 36524) ∧
        (r = 36524 → c = 3) := by
    by_cases last : n = 146096
    · exact ⟨3, 36524, by omega⟩
    · exact ⟨n / 36524, n % 36524, by omega⟩
  obtain ⟨year, day, inSpan_eq, year_mem, day_mem, leap⟩ :
      ∃ y d : Int, inCentury % 1461 = 365 * y + d ∧ (0 ≤ y ∧ y ≤ 3) ∧ (0 ≤ d ∧ d ≤ 365) ∧
        (d = 365 → y = 3) := by
    by_cases last : inCentury % 1461 = 1460
    · exact ⟨3, 365, by omega⟩
    · exact ⟨inCentury % 1461 / 365, inCentury % 1461 % 365, by omega⟩
  refine ⟨⟨century, inCentury / 1461, year, day, century_mem, ?_, year_mem, day_mem, ?_⟩, ?_⟩
  · omega
  · omega
  · dsimp only [number]
    omega

theorem daysBefore_years (p : CyclePlace) :
    daysBefore p.years = 365 * p.years + p.years / 4 - p.years / 100 := by
  obtain ⟨c, q, r, -, hc, hq, hr, -, -⟩ := p
  simp only [years, daysBefore]
  omega

theorem number_eq (p : CyclePlace) : p.number = daysBefore p.years + p.day := by
  obtain ⟨c, q, r, d, hc, hq, hr, hd, leap⟩ := p
  simp only [number, years, daysBefore]
  omega

theorem liesIn (p : CyclePlace) : LiesIn p.number p.years := by
  constructor
  · have := p.day_mem
    have := p.number_eq
    omega
  · obtain ⟨c, q, r, d, hc, hq, hr, hd, leap⟩ := p
    simp only [number, years, daysBefore]
    rcases (show r ≤ 2 ∨ r = 3 by omega) with inSpan | rfl
    · omega
    · rcases (show q ≤ 23 ∨ q = 24 by omega) with inCentury | rfl
      · omega
      · omega

/-- The quotients by which the years of a cycle are counted: days are taken out until every year
has 365 of them. -/
theorem years_eq (p : CyclePlace) :
    (p.number - p.number / 1460 + p.number / 36524 - p.number / 146096) / 365 = p.years := by
  obtain ⟨c, q, r, d, hc, hq, hr, hd, leap⟩ := p
  simp only [number, years]
  have centuries : (36524 * c + 1461 * q + 365 * r + d) / 36524 -
      (36524 * c + 1461 * q + 365 * r + d) / 146096 = c := by
    by_cases last : q = 24 ∧ d = 365
    · obtain ⟨rfl, rfl⟩ := last
      obtain ⟨rfl, rfl⟩ : r = 3 ∧ c = 3 := ⟨(leap rfl).1, (leap rfl).2 rfl⟩
      rfl
    · have inCentury : 1461 * q + 365 * r + d ≤ 36523 := by omega
      have century : (36524 * c + 1461 * q + 365 * r + d) / 36524 = c := by omega
      have cycle : (36524 * c + 1461 * q + 365 * r + d) / 146096 = 0 := by omega
      rw [century, cycle, sub_zero]
  have spans : (36524 * c + 1461 * q + 365 * r + d) / 1460 =
      25 * c + q + (24 * c + q + 365 * r + d) / 1460 := by omega
  by_cases carries : 1460 ≤ 24 * c + q + 365 * r + d
  · omega
  · omega

end CyclePlace

def Date.inYear (year day : Int) : Date :=
  let m := (5 * day + 2) / 153
  let month := if m < 10 then m + 3 else m - 9
  ⟨year + (if month ≤ 2 then 1 else 0), month.toNat, (day - daysBeforeMonth m + 1).toNat⟩

theorem exists_ofNumber_eq (n : Int) :
    ∃ year, LiesIn n year ∧ Date.ofNumber n = .inYear year (n - daysBefore year) := by
  obtain ⟨p, place⟩ := CyclePlace.exists_number_eq (n := n % 146097) (by omega) (by omega)
  have years := p.years_eq
  rw [place] at years
  refine ⟨p.years + n / 146097 * 400, ?_, ?_⟩
  · have cycles : n = n % 146097 + 146097 * (n / 146097) := by omega
    have lies := p.liesIn.add_cycles (n / 146097)
    rwa [place, ← cycles] at lies
  · have inCycle : n - daysBefore (p.years + n / 146097 * 400) =
        n % 146097 - daysBefore p.years := by
      rw [daysBefore_add_cycles]
      omega
    rw [inCycle]
    simp only [Date.ofNumber, years, ← p.daysBefore_years, Date.inYear]

def countedYear (year : Int) (month : Nat) : Int := if month ≤ 2 then year - 1 else year

def countedMonth (month : Nat) : Int := if month ≤ 2 then month + 9 else month - 3

theorem dayNumber_eq (year : Int) (month day : Nat) :
    dayNumber year month day = daysBefore (countedYear year month) +
      (daysBeforeMonth (countedMonth month) + day - 1) := by
  have cycles (y : Int) : y / 400 * 146097 + y % 400 * 365 + y % 400 / 4 - y % 400 / 100 =
      daysBefore y := by
    unfold daysBefore
    omega
  unfold dayNumber
  dsimp only
  rw [cycles]
  unfold countedYear countedMonth
  omega

def leapDays (year : Int) : Int := if isLeap year then 1 else 0

theorem leapDays_mem (year : Int) : 0 ≤ leapDays year ∧ leapDays year ≤ 1 := by
  unfold leapDays
  split <;> omega

theorem daysBefore_succ (year : Int) :
    daysBefore (year + 1) = daysBefore year + 365 + leapDays (year + 1) := by
  have leap : isLeap (year + 1) = true ↔
      (year + 1) % 4 = 0 ∧ ((year + 1) % 100 ≠ 0 ∨ (year + 1) % 400 = 0) := by
    simp [isLeap]
  unfold daysBefore leapDays
  split
  · have := leap.mp ‹_›
    omega
  · have := mt leap.mpr ‹_›
    omega

theorem monthOfDay_eq_iff {day m : Int} :
    (5 * day + 2) / 153 = m ↔ daysBeforeMonth m ≤ day ∧ day < daysBeforeMonth (m + 1) := by
  unfold daysBeforeMonth
  omega

theorem daysThroughMonth_eq {month : Nat} (year : Int) (low : 1 ≤ month) (high : month ≤ 12) :
    daysBeforeMonth (countedMonth month) + daysInMonth year month =
      min (daysBeforeMonth (countedMonth month + 1))
        (365 + leapDays (countedYear year month + 1)) := by
  have leap := leapDays_mem (countedYear year month + 1)
  by_cases february : month = 2
  · subst february
    have thisYear : countedYear year 2 + 1 = year := by simp [countedYear]
    rw [thisYear]
    cases h : isLeap year <;> simp [daysInMonth, leapDays, h, daysBeforeMonth, countedMonth]
  · have length : (daysInMonth year month : Int) =
        daysBeforeMonth (countedMonth month + 1) - daysBeforeMonth (countedMonth month) := by
      interval_cases month
      all_goals first | rfl | exact absurd rfl february
    have inside : daysBeforeMonth (countedMonth month + 1) ≤ 365 := by
      unfold daysBeforeMonth countedMonth
      omega
    omega

namespace Date

structure Proper (d : Date) : Prop where
  month_pos : 1 ≤ d.month
  month_le : d.month ≤ 12
  day_pos : 1 ≤ d.day
  day_le : d.day ≤ daysInMonth d.year d.month

theorem proper_inYear {n year : Int} (lies : LiesIn n year) :
    (inYear year (n - daysBefore year)).Proper ∧
      (inYear year (n - daysBefore year)).number = n := by
  obtain ⟨low, high⟩ := lies
  rw [daysBefore_succ] at high
  obtain ⟨day, rfl⟩ : ∃ day, n = daysBefore year + day := ⟨n - daysBefore year, by omega⟩
  obtain ⟨m, inMonth⟩ : ∃ m, (5 * day + 2) / 153 = m := ⟨_, rfl⟩
  obtain ⟨first, last⟩ := monthOfDay_eq_iff.mp inMonth
  have leap := leapDays_mem (year + 1)
  obtain ⟨month, month_pos, month_le, counted, named⟩ : ∃ month : Nat, 1 ≤ month ∧ month ≤ 12 ∧
      countedMonth month = m ∧ (if m < 10 then m + 3 else m - 9) = month := by
    refine ⟨(if m < 10 then m + 3 else m - 9).toNat, ?_⟩
    unfold countedMonth
    omega
  have date : inYear year (daysBefore year + day - daysBefore year) =
      ⟨year + if (month : Int) ≤ 2 then 1 else 0, month, (day - daysBeforeMonth m + 1).toNat⟩ := by
    rw [add_sub_cancel_left]
    simp only [inYear, inMonth, named, Int.toNat_natCast]
  have yearBack : countedYear (year + if (month : Int) ≤ 2 then 1 else 0) month = year := by
    unfold countedYear
    omega
  have ends := daysThroughMonth_eq (year + if (month : Int) ≤ 2 then 1 else 0) month_pos month_le
  rw [counted, yearBack] at ends
  rw [date]
  refine ⟨⟨month_pos, month_le, ?_, ?_⟩, ?_⟩
  · dsimp only
    omega
  · dsimp only
    omega
  · rw [number, dayNumber_eq]
    dsimp only
    rw [yearBack, counted]
    omega

theorem Proper.inYear_eq {d : Date} (proper : d.Proper) :
    LiesIn d.number (countedYear d.year d.month) ∧
      inYear (countedYear d.year d.month) (d.number - daysBefore (countedYear d.year d.month)) =
        d := by
  obtain ⟨year, month, day⟩ := d
  obtain ⟨month_pos, month_le, day_pos, day_le⟩ := proper
  dsimp only at *
  have ends := daysThroughMonth_eq year month_pos month_le
  have dayOfYear : dayNumber year month day - daysBefore (countedYear year month) =
      daysBeforeMonth (countedMonth month) + day - 1 := by
    rw [dayNumber_eq]
    omega
  have inMonth : (5 * (daysBeforeMonth (countedMonth month) + day - 1) + 2) / 153 =
      countedMonth month := monthOfDay_eq_iff.mpr (by omega)
  constructor
  · have start : 0 ≤ daysBeforeMonth (countedMonth month) := by
      unfold daysBeforeMonth countedMonth
      omega
    rw [LiesIn, daysBefore_succ, number, dayNumber_eq]
    dsimp only
    omega
  · rw [number, dayOfYear]
    simp only [inYear, inMonth]
    unfold countedMonth countedYear
    simp only [Date.mk.injEq]
    omega

@[simp] theorem number_ofNumber (n : Int) : (ofNumber n).number = n := by
  obtain ⟨year, lies, date⟩ := exists_ofNumber_eq n
  rw [date]
  exact (proper_inYear lies).2

theorem proper_ofNumber (n : Int) : (ofNumber n).Proper := by
  obtain ⟨year, lies, date⟩ := exists_ofNumber_eq n
  rw [date]
  exact (proper_inYear lies).1

theorem Proper.ofNumber_number {d : Date} (proper : d.Proper) : ofNumber d.number = d := by
  obtain ⟨lies, date⟩ := proper.inYear_eq
  obtain ⟨year, found, date'⟩ := exists_ofNumber_eq d.number
  rw [date', ← lies.unique found, date]

end Date
end ServerScript.Calendar
