import ServerScript.Calendar.Date
import ServerScript.Number.Word
import ServerScript.Error

/-! Points in time to the second, and the arithmetic of dates on them. A moment may lie in a leap
second, which shows as the second before it. -/
namespace ServerScript.Calendar

structure Moment where
  /-- The number of the day. -/
  day : Int
  /-- Seconds since midnight, below 86400. -/
  second : Nat
  leap : Bool := false
  deriving DecidableEq, Repr, Inhabited, BEq

namespace Moment

def epoch : Int := dayNumber 1899 12 30

def date (t : Moment) : Date := Date.ofNumber t.day

def hour (t : Moment) : Nat := t.second / 3600

def minute (t : Moment) : Nat := t.second / 60 % 60

def secondOfMinute (t : Moment) : Nat := t.second % 60

def isMidnight (t : Moment) : Bool := t.second == 0 && !t.leap

def midnight (day : Int) : Moment := ⟨day, 0, false⟩

/-- Moves by seconds within the supported years. Leaving a leap second counts from the second it
shows when moving on, and from the one after it when moving back. -/
def addSeconds? (t : Moment) (delta : Int) : Option Moment :=
  if t.leap ∧ delta = 0 then some t
  else
    let start : Int := if t.leap ∧ delta < 0 then t.second + 1 else t.second
    let total := start + delta
    let day := t.day + total / 86400
    if inRange day then some ⟨day, (total % 86400).toNat, false⟩ else none

/-- Moves by months; a day that the month does not have becomes its last day. -/
def addMonths? (t : Moment) (months : Int) : Option Moment :=
  let d := t.date
  let index := d.year * 12 + (d.month - 1) + months
  let year := index / 12
  let month := (index % 12).toNat + 1
  if minYear ≤ year ∧ year ≤ maxYear then
    some { t with day := dayNumber year month (min d.day (daysInMonth year month)) }
  else none

end Moment

inductive Interval where
  | year | quarter | month | dayOfYear | day | weekday | week | hour | minute | second
  deriving DecidableEq, Repr, Inhabited, BEq

def Interval.ofText? : String → Option Interval
  | "yyyy" => some .year
  | "q" => some .quarter
  | "m" => some .month
  | "y" => some .dayOfYear
  | "d" => some .day
  | "w" => some .weekday
  | "ww" => some .week
  | "h" => some .hour
  | "n" => some .minute
  | "s" => some .second
  | _ => none

/-- The moment a number of units away, if it lies within the supported years. -/
def add? (interval : Interval) (amount : Int) (t : Moment) : Option Moment :=
  match interval with
  | .year => t.addMonths? (amount * 12)
  | .quarter => t.addMonths? (amount * 3)
  | .month => t.addMonths? amount
  | .dayOfYear | .day | .weekday => t.addSeconds? (amount * 86400)
  | .week => t.addSeconds? (amount * 604800)
  | .hour => t.addSeconds? (amount * 3600)
  | .minute => t.addSeconds? (amount * 60)
  | .second => t.addSeconds? amount

def monthIndex (t : Moment) : Int := t.date.year * 12 + (t.date.month - 1)

def weekStart (t : Moment) : Except Fault Int :=
  let n := t.day - weekday t.day
  if inRange n then .ok n else .error .dateOutOfRange

def unitsOf (seconds : Int) (t : Moment) : Int := (t.day * 86400 + t.second) / seconds

def diff (interval : Interval) (start stop : Moment) : Except Fault Int :=
  match interval with
  | .year => .ok (stop.date.year - start.date.year)
  | .quarter => .ok (monthIndex stop / 3 - monthIndex start / 3)
  | .month => .ok (monthIndex stop - monthIndex start)
  | .dayOfYear | .day => .ok (stop.day - start.day)
  | .weekday => .ok (Int.tdiv (stop.day - start.day) 7)
  | .week => do
    let last ← weekStart stop
    let first ← weekStart start
    return Int.tdiv (last - first) 7
  | .hour => .ok (unitsOf 3600 stop - unitsOf 3600 start)
  | .minute => .ok (unitsOf 60 stop - unitsOf 60 start)
  | .second => .ok (unitsOf 1 stop - unitsOf 1 start)

/-- The number of a weekday when counting starts with `first`, Sunday being one. -/
def weekdayNumber (n : Int) (first : Int) : Int :=
  let first := if 1 ≤ first ∧ first ≤ 7 then first else 1
  ((weekday n : Int) + 1 - first) % 7 + 1

def part (interval : Interval) (t : Moment) : Int :=
  match interval with
  | .year => t.date.year
  | .quarter => (t.date.month - 1) / 3 + 1
  | .month => t.date.month
  | .dayOfYear => dayOfYear t.day + 1
  | .day => t.date.day
  | .weekday => weekdayNumber t.day 1
  | .week => (dayOfYear t.day + weekday (dayNumber t.date.year 1 1)) / 7 + 1
  | .hour => t.hour
  | .minute => t.minute
  | .second => t.secondOfMinute

/-- The day reached by counting months and days from the start of a year; both may lie outside
their usual range. -/
def dateSerial (year month day : Int64) : Except Fault (Option Moment) :=
  match Number.word? (year.toInt * 12) with
  | none => .ok none
  | some months =>
    match Number.word? (month.toInt - 1) with
    | none => .error .subtractOverflow
    | some monthsOn =>
      match Number.word? (months.toInt + monthsOn.toInt) with
      | none => .ok none
      | some index =>
        let y := index.toInt / 12
        let m := (index.toInt % 12).toNat + 1
        if minYear ≤ y ∧ y ≤ maxYear then
          match Number.word? (day.toInt - 1) with
          | none => .error .subtractOverflow
          | some daysOn =>
            let n := dayNumber y m 1 + daysOn.toInt
            .ok (if inRange n then some (.midnight n) else none)
        else .ok none

/-- The seconds of hours, minutes and seconds, if every product and sum fits a word. -/
def secondsOf? (hour minute second : Int64) : Option Int64 := do
  let hours ← Number.word? (hour.toInt * 3600)
  let minutes ← Number.word? (minute.toInt * 60)
  let sum ← Number.word? (hours.toInt + minutes.toInt)
  Number.word? (sum.toInt + second.toInt)

/-- The time of day reached by counting hours, minutes and seconds from midnight. -/
def timeSerial? (hour minute second : Int64) : Option Moment :=
  (secondsOf? hour minute second).bind fun n =>
    (Moment.midnight Moment.epoch).addSeconds? n.toInt

end ServerScript.Calendar
