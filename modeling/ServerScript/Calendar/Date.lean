/-! The civil calendar with its leap years, extended to years before its introduction. Days are
numbered from the first of March of the year 0, so that a leap day is the last day of a counted
year. -/
namespace ServerScript.Calendar

structure Date where
  year : Int
  month : Nat
  day : Nat
  deriving DecidableEq, Repr, Inhabited, BEq

def isLeap (year : Int) : Bool := year % 4 == 0 && (year % 100 != 0 || year % 400 == 0)

def daysInMonth (year : Int) (month : Nat) : Nat :=
  if month = 2 then if isLeap year then 29 else 28
  else if month = 4 ∨ month = 6 ∨ month = 9 ∨ month = 11 then 30
  else 31

def minYear : Int := -262143

def maxYear : Int := 262142

def Date.valid (d : Date) : Bool :=
  minYear ≤ d.year && d.year ≤ maxYear && 1 ≤ d.month && d.month ≤ 12 &&
    1 ≤ d.day && d.day ≤ daysInMonth d.year d.month

/-- Days before a month in a year that starts in March; months count from zero. -/
def daysBeforeMonth (month : Int) : Int := (153 * month + 2) / 5

def dayNumber (year : Int) (month day : Nat) : Int :=
  let y := if month ≤ 2 then year - 1 else year
  let m : Int := if month ≤ 2 then month + 9 else month - 3
  let cycle := y / 400
  let yearOfCycle := y % 400
  cycle * 146097 + yearOfCycle * 365 + yearOfCycle / 4 - yearOfCycle / 100 +
    daysBeforeMonth m + day - 1

def Date.number (d : Date) : Int := dayNumber d.year d.month d.day

def Date.ofNumber (n : Int) : Date :=
  let cycle := n / 146097
  let dayOfCycle := n % 146097
  let yearOfCycle :=
    (dayOfCycle - dayOfCycle / 1460 + dayOfCycle / 36524 - dayOfCycle / 146096) / 365
  let dayOfYear := dayOfCycle - (365 * yearOfCycle + yearOfCycle / 4 - yearOfCycle / 100)
  let m := (5 * dayOfYear + 2) / 153
  let day := dayOfYear - daysBeforeMonth m + 1
  let month := if m < 10 then m + 3 else m - 9
  let year := yearOfCycle + cycle * 400 + (if month ≤ 2 then 1 else 0)
  ⟨year, month.toNat, day.toNat⟩

def minDay : Int := dayNumber minYear 1 1

def maxDay : Int := dayNumber maxYear 12 31

def weekday (n : Int) : Nat := ((n + 3) % 7).toNat

def dayOfYear (n : Int) : Int := n - dayNumber (Date.ofNumber n).year 1 1

def inRange (n : Int) : Bool := minDay ≤ n && n ≤ maxDay

example : Date.ofNumber (dayNumber 2024 2 29) = ⟨2024, 2, 29⟩ := by decide

example : weekday (dayNumber 2024 7 4) = 4 := by decide

end ServerScript.Calendar
