import ServerScript.Calendar.Moment
import ServerScript.Number.Numeral
import ServerScript.Text.Case

/-! Dates as texts. Values are written as `M/D/YYYY h:mm:ss AM`, without the time at midnight and
without the date for a bare time of day; several other spellings are understood. -/
namespace ServerScript.Calendar

def monthNames : List String :=
  ["January", "February", "March", "April", "May", "June", "July", "August", "September",
    "October", "November", "December"]

def weekdayNames : List String :=
  ["Sunday", "Monday", "Tuesday", "Wednesday", "Thursday", "Friday", "Saturday"]

def twoDigits (n : Nat) : String := if n < 10 then "0" ++ toString n else toString n

def dateText (d : Date) : String :=
  toString d.month ++ "/" ++ toString d.day ++ "/" ++ toString d.year

def hour12 (hour : Nat) : Nat := if hour % 12 = 0 then 12 else hour % 12

def timeText (t : Moment) : String :=
  toString (hour12 t.hour) ++ ":" ++ twoDigits t.minute ++ ":" ++ twoDigits t.secondOfMinute ++
    (if t.hour < 12 then " AM" else " PM")

def Moment.text (t : Moment) : String :=
  if t.isMidnight then dateText t.date
  else if t.day = Moment.epoch then timeText t
  else dateText t.date ++ " " ++ timeText t

def Moment.longText (t : Moment) : String :=
  weekdayNames.getD (weekday t.day) "" ++ ", " ++ monthNames.getD (t.date.month - 1) "" ++ " " ++
    toString t.date.day ++ ", " ++ toString t.date.year

inductive Item where
  | month | day | year | hour24 | hour12 | minute | second | half | monthName
  /-- Any number of blanks. -/
  | gap
  | char (c : Char)
  deriving DecidableEq, Repr, Inhabited, BEq

structure Fields where
  year : Int := 0
  month : Nat := 1
  day : Nat := 1
  hour : Nat := 0
  minute : Nat := 0
  second : Nat := 0
  afternoon : Option Bool := none
  deriving Inhabited

def skipBlanks (cs : List Char) : List Char := cs.dropWhile Text.isBlank

/-- At least one and at most `width` digits, whose number is that of a word. -/
def number? (width : Nat) (cs : List Char) : Option (Nat × List Char) :=
  let ds := (cs.take width).takeWhile Number.isDigit
  (Number.wordDigits? 10 ds).map (·, cs.drop ds.length)

/-- A year of four digits at most, or of any length behind a sign. -/
def year? : List Char → Option (Int × List Char)
  | '-' :: rest => (number? rest.length rest).map fun (n, rest) => (-(n : Int), rest)
  | '+' :: rest => (number? rest.length rest).map fun (n, rest) => ((n : Int), rest)
  | cs => (number? 4 cs).map fun (n, rest) => ((n : Int), rest)

def lowerAscii (cs : List Char) : List Char := cs.map Char.toLower

/-- A month by its first three letters, with the rest of its name if that follows. -/
def monthName? (cs : List Char) : Option (Nat × List Char) :=
  let lowered := monthNames.map fun name => lowerAscii name.toList
  match lowered.findIdx? fun name => name.take 3 == lowerAscii (cs.take 3) with
  | none => none
  | some index =>
    let tail := (lowered.getD index []).drop 3
    let rest := cs.drop 3
    if lowerAscii (rest.take tail.length) == tail then some (index + 1, rest.drop tail.length)
    else some (index + 1, rest)

/-- A number of at most two digits within bounds, after any blanks. -/
def bounded? (low high : Nat) (cs : List Char) : Option (Nat × List Char) :=
  match number? 2 (skipBlanks cs) with
  | some (n, rest) => if low ≤ n ∧ n ≤ high then some (n, rest) else none
  | none => none

def Item.read? (item : Item) (f : Fields) (cs : List Char) : Option (Fields × List Char) :=
  match item with
  | .gap => some (f, skipBlanks cs)
  | .char c =>
    match cs with
    | d :: rest => if c = d then some (f, rest) else none
    | [] => none
  | .year => (year? (skipBlanks cs)).map fun (n, rest) => ({ f with year := n }, rest)
  | .month => (bounded? 1 12 cs).map fun (n, rest) => ({ f with month := n }, rest)
  | .day => (bounded? 1 31 cs).map fun (n, rest) => ({ f with day := n }, rest)
  | .hour24 => (bounded? 0 23 cs).map fun (n, rest) => ({ f with hour := n }, rest)
  | .hour12 => (bounded? 1 12 cs).map fun (n, rest) => ({ f with hour := n % 12 }, rest)
  | .minute => (bounded? 0 59 cs).map fun (n, rest) => ({ f with minute := n }, rest)
  | .second => (bounded? 0 60 cs).map fun (n, rest) => ({ f with second := n }, rest)
  | .half =>
    match lowerAscii (cs.take 2) with
    | ['a', 'm'] => some ({ f with afternoon := some false }, cs.drop 2)
    | ['p', 'm'] => some ({ f with afternoon := some true }, cs.drop 2)
    | _ => none
  | .monthName => (monthName? cs).map fun (n, rest) => ({ f with month := n }, rest)

def readFields? : List Item → Fields → List Char → Option Fields
  | [], f, [] => some f
  | [], _, _ :: _ => none
  | item :: items, f, cs =>
    match item.read? f cs with
    | some (f, rest) => readFields? items f rest
    | none => none

def Fields.secondOfDay (f : Fields) : Nat :=
  let hour := if f.afternoon = some true then f.hour + 12 else f.hour
  hour * 3600 + f.minute * 60 + min f.second 59

def Fields.moment? (f : Fields) : Option Moment :=
  let d : Date := ⟨f.year, f.month, f.day⟩
  if d.valid then some ⟨d.number, f.secondOfDay, f.second == 60⟩ else none

def Fields.time (f : Fields) : Moment := ⟨Moment.epoch, f.secondOfDay, f.second == 60⟩

def slashDate : List Item := [.month, .char '/', .day, .char '/', .year]

def dashDate : List Item := [.year, .char '-', .month, .char '-', .day]

def yearFirstDate : List Item := [.year, .char '/', .month, .char '/', .day]

def namedDate : List Item := [.monthName, .gap, .day, .char ',', .gap, .year]

def fullTime : List Item := [.hour24, .char ':', .minute, .char ':', .second]

def shortTime : List Item := [.hour24, .char ':', .minute]

def fullTime12 : List Item := [.hour12, .char ':', .minute, .char ':', .second, .gap, .half]

def shortTime12 : List Item := [.hour12, .char ':', .minute, .gap, .half]

def momentPatterns : List (List Item) :=
  [slashDate ++ .gap :: fullTime12, slashDate ++ .gap :: shortTime12, slashDate ++ .gap :: fullTime,
    slashDate ++ .gap :: shortTime, dashDate ++ .gap :: fullTime, dashDate ++ .char 'T' :: fullTime,
    yearFirstDate ++ .gap :: fullTime, namedDate ++ .gap :: fullTime]

def datePatterns : List (List Item) := [slashDate, dashDate, yearFirstDate, namedDate]

def timePatterns : List (List Item) := [fullTime12, shortTime12, fullTime, shortTime]

/-- The first pattern that fits decides: dates with a time, then dates, then times. -/
def momentOf? (cs : List Char) : Option Moment :=
  (momentPatterns ++ datePatterns).findSome? (fun p => (readFields? p {} cs).bind Fields.moment?) <|>
    timePatterns.findSome? fun p => (readFields? p {} cs).map Fields.time

def Moment.ofText? (text : String) : Option Moment :=
  match Text.trimBoth Text.isBlank text.toList with
  | [] => none
  | cs => momentOf? cs

end ServerScript.Calendar
