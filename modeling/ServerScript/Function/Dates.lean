import ServerScript.Function.Basic
import ServerScript.Calendar.Text

/-! Functions on dates. A date is kept as a text; what does not read as one is refused. -/
namespace ServerScript.Function

open Calendar (Moment Interval)

def dateArg (args : List Value) (index : Nat) (name : String) : Except Stop Moment :=
  match Moment.ofText? (textArg args index) with
  | some t => .ok t
  | none => mismatch name

def ofMoment (t : Moment) : Value := .string t.text

def ofMoment? (t : Option Moment) (name : String) : Answer :=
  match t with
  | some t => .ok (ofMoment t)
  | none => invalid name

def ofFaultOr (result : Except Fault α) : Except Stop α := result.mapError .fault

/-- The unit in front of the arguments; an unknown one is refused only after the dates were
read. -/
def intervalArg (args : List Value) (name : String) : Except Stop (Option Interval) :=
  let text := Text.lower (textArg args 0)
  if text == "" then invalid name else .ok (Interval.ofText? text)

def component (name : String) (part : Moment → Int) : List Value → Answer := passNull fun args => do
  let t ← dateArg args 0 name
  return ofNumber (part t)

def weekday (args : List Value) : Answer := do
  let t ← dateArg args 0 "Weekday"
  return ofNumber (Calendar.weekdayNumber t.day (wordArg args 1 1).toInt)

def shortened (name : String) (short : Value) : Value :=
  .string (if short.isTruthy then String.ofList (name.toList.take 3) else name)

def weekdayName (args : List Value) : Answer :=
  let day := (Value.arg args 0).toWord.toInt
  let first := (wordArg args 2 1).toInt
  let first := if 1 ≤ first ∧ first ≤ 7 then first else 1
  if 1 ≤ day ∧ day ≤ 7 then
    let index := ((day - 1 + first - 1) % 7).toNat
    .ok (shortened (Calendar.weekdayNames.getD index "") (Value.arg args 1))
  else invalid "WeekdayName"

def monthName (args : List Value) : Answer := do
  let index ← ofFaultOr (Value.arg args 0).position
  match index.bind fun i => Calendar.monthNames[i]? with
  | some name => return shortened name (Value.arg args 1)
  | none => invalid "MonthName"

def dateSerial (args : List Value) : Answer := do
  let t ← ofFaultOr (Calendar.dateSerial (Value.arg args 0).toWord (Value.arg args 1).toWord
    (Value.arg args 2).toWord)
  ofMoment? t "DateSerial"

def timeSerial (args : List Value) : Answer :=
  ofMoment? (Calendar.timeSerial? (Value.arg args 0).toWord (Value.arg args 1).toWord
    (Value.arg args 2).toWord) "TimeSerial"

def dateAdd (args : List Value) : Answer := do
  let interval ← intervalArg args "DateAdd"
  let t ← dateArg args 2 "DateAdd"
  let amount := (Value.arg args 1).toWord.toInt
  ofMoment? (interval.bind fun interval => Calendar.add? interval amount t) "DateAdd"

def dateDiff (args : List Value) : Answer := do
  let interval ← intervalArg args "DateDiff"
  let start ← dateArg args 1 "DateDiff"
  let stop ← dateArg args 2 "DateDiff"
  match interval with
  | some interval => return ofNumber (← ofFaultOr (Calendar.diff interval start stop))
  | none => invalid "DateDiff"

def datePart (args : List Value) : Answer := do
  let interval ← intervalArg args "DatePart"
  let t ← dateArg args 1 "DatePart"
  match interval with
  | some interval => return ofNumber (Calendar.part interval t)
  | none => invalid "DatePart"

def isDate : Value → Bool
  | .string s => (Moment.ofText? s).isSome
  | _ => false

def formatDateTime (args : List Value) : Answer := do
  let t ← dateArg args 0 "FormatDateTime"
  match (wordArg args 1 0).toInt with
  | 0 => return ofMoment t
  | 1 => return .string t.longText
  | 2 => return .string (Calendar.dateText t.date)
  | 3 => return .string (Calendar.timeText t)
  | 4 => return .string (Calendar.twoDigits t.hour ++ ":" ++ Calendar.twoDigits t.minute)
  | _ => invalid "FormatDateTime"

def cDate (args : List Value) : Answer := do
  return ofMoment (← dateArg args 0 "CDate")

def clockFunction (name : String) (f : ClockReading → Value) : Builtin :=
  ⟨name, .exactly 0, fun _ => do return f (← get).clock⟩

def timer (clock : ClockReading) : Value :=
  .float (Float.ofNat clock.now.second + Float.ofNat clock.hundredths / 100.0)

def dateFunctions : List Builtin :=
  [clockFunction "now" (ofMoment ·.now),
    clockFunction "date" (fun clock => .string (Calendar.dateText clock.now.date)),
    clockFunction "time" (fun clock => .string (Calendar.timeText clock.now)),
    clockFunction "timer" timer,
    .ofAnswer "year" (.exactly 1) (component "Year" (·.date.year)),
    .ofAnswer "month" (.exactly 1) (component "Month" (·.date.month)),
    .ofAnswer "day" (.exactly 1) (component "Day" (·.date.day)),
    .ofAnswer "hour" (.exactly 1) (component "Hour" (·.hour)),
    .ofAnswer "minute" (.exactly 1) (component "Minute" (·.minute)),
    .ofAnswer "second" (.exactly 1) (component "Second" (·.secondOfMinute)),
    .ofAnswer "weekday" (.between 1 2) weekday,
    .ofAnswer "weekdayname" (.between 1 3) weekdayName,
    .ofAnswer "monthname" (.between 1 2) monthName,
    .ofAnswer "dateserial" (.exactly 3) dateSerial,
    .ofAnswer "timeserial" (.exactly 3) timeSerial,
    .ofAnswer "dateadd" (.exactly 3) dateAdd,
    .ofAnswer "datediff" (.between 3 5) dateDiff,
    .ofAnswer "datepart" (.between 2 4) datePart,
    .ofValue "isdate" (fun v => .bool (isDate v)),
    .ofAnswer "formatdatetime" (.between 1 2) formatDateTime,
    .ofAnswer "cdate" (.exactly 1) cDate]

end ServerScript.Function
