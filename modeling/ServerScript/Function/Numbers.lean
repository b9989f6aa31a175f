import ServerScript.Function.Basic

/-! Conversions to numbers and texts, arithmetic functions and numbers as formatted texts. -/
namespace ServerScript.Function

open Number (Numeric)

def cStr (args : List Value) : Answer :=
  let v := Value.arg args 0
  if v.isNull then mismatch "CStr" else .ok (.string v.toText)

def toRange (name : String) (low high : Int) (args : List Value) : Answer :=
  let v := Value.arg args 0
  if v.toNumeric?.isNone then mismatch name
  else
    let n := v.toWord
    if n.toInt < low ∨ high < n.toInt then refuse (.runtime ("overflow: " ++ name))
    else .ok (.integer n)

def toDouble (name : String) (args : List Value) : Answer :=
  match (Value.arg args 0).toNumeric? with
  | some n => .ok (.float n.toFloat)
  | none => mismatch name

def cBool (args : List Value) : Answer :=
  let byNumber (v : Value) : Answer :=
    match v.toNumeric? with
    | some n => .ok (.bool (n.toFloat != 0.0))
    | none => mismatch "CBool"
  match Value.arg args 0 with
  | .bool b => .ok (.bool b)
  | .string s =>
    let trimmed := Text.trim s
    if Text.asciiEq trimmed "true" then .ok (.bool true)
    else if Text.asciiEq trimmed "false" then .ok (.bool false)
    else byNumber (.string s)
  | v => byNumber v

/-- The bits of a word as a natural number: thirty-two of them if the word fits these, otherwise
sixty-four. -/
def unsigned (n : Int64) : Nat :=
  if Number.fits32 n then (n.toInt % UInt32.size).toNat else (n.toInt % UInt64.size).toNat

def inRadix (radix : Nat) : List Value → Answer := passNull fun args =>
  .ok (ofChars ((Nat.toDigits radix (unsigned (Value.arg args 0).toWord)).map Char.toUpper))

def onFloat (f : Float → Float) : List Value → Answer := passNull fun args =>
  match (Value.arg args 0).toNumeric with
  | .int n => .ok (.integer n)
  | .float x => .ok (.float (f x))

def abs : List Value → Answer := passNull fun args =>
  match (Value.arg args 0).toNumeric with
  | .int n =>
    match Number.word? n.toInt.natAbs with
    | some m => .ok (.integer m)
    | none => .ok (.float (Number.ofWord n).abs)
  | .float x => .ok (.float x.abs)

def sgn : List Value → Answer := passNull fun args =>
  let x := (Value.arg args 0).toFloat
  .ok (ofNumber (if 0.0 < x then 1 else if x < 0.0 then -1 else 0))

/-- Rounds to a number of decimal places, a half going to the even neighbour. -/
def round : List Value → Answer := passNull fun args =>
  let places := (wordArg args 1 0).toInt
  if places < 0 ∨ 0x80000000 ≤ places then invalid "Round"
  else
    onFloat (fun x =>
      let factor := Number.powerNat 10.0 places.toNat
      Number.roundTo .halfEven (x * factor) / factor) args

def sqr : List Value → Answer := passNull fun args =>
  let x := (Value.arg args 0).toFloat
  if x < 0.0 then invalid "Sqr" else .ok (.float x.sqrt)

def groupThousands : List Char → List Char
  | [] => []
  | d :: rest =>
    if rest ≠ [] ∧ rest.length % 3 = 0 then d :: ',' :: groupThousands rest
    else d :: groupThousands rest

structure NumberFormat where
  places : Nat
  leadingZero : Bool
  /-- Negative numbers stand in brackets instead of behind a sign. -/
  brackets : Bool
  grouping : Bool

def NumberFormat.ofArgs (args : List Value) : NumberFormat :=
  let places := (wordArg args 1 (-1)).toInt
  { places := if places < 0 then 2 else places.toNat
    leadingZero := wordArg args 2 (-1) != 0
    brackets := wordArg args 3 0 == -1
    grouping := wordArg args 4 (-1) != 0 }

def NumberFormat.whole (f : NumberFormat) (digits fraction : List Char) : List Char :=
  if digits == ['0'] && !f.leadingZero && !fraction.isEmpty then []
  else if f.grouping then groupThousands digits
  else digits

def NumberFormat.text (f : NumberFormat) (x : Float) : List Char :=
  let cs := (Number.fixedText x f.places).toList
  let fraction := (cs.dropWhile (· != '.')).drop 1
  let whole := f.whole (cs.takeWhile (· != '.')) fraction
  let body := if fraction.isEmpty then whole else whole ++ '.' :: fraction
  if x < 0.0 && cs.any fun c => Number.isDigit c && c != '0' then
    if f.brackets then '(' :: body ++ [')'] else '-' :: body
  else body

/-- A number with grouped digits and a fixed number of places, of which at most 65535 can be
asked for. -/
def formatNumber (args : List Value) : Answer :=
  let v := Value.arg args 0
  if v.toNumeric?.isNone then mismatch "FormatNumber"
  else
    let format := NumberFormat.ofArgs args
    if 65535 < format.places then .error (.fault .precisionOutOfRange)
    else .ok (ofChars (format.text v.toFloat))

def numberFunctions : List Builtin :=
  [.ofAnswer "cstr" (.exactly 1) cStr,
    .ofAnswer "cint" (.exactly 1) (toRange "CInt" (-0x8000) 0x7fff),
    .ofAnswer "clng" (.exactly 1) (toRange "CLng" (-0x80000000) 0x7fffffff),
    .ofAnswer "cbyte" (.exactly 1) (toRange "CByte" 0 255),
    .ofAnswer "cdbl" (.exactly 1) (toDouble "CDbl"),
    .ofAnswer "csng" (.exactly 1) (toDouble "CSng"),
    .ofAnswer "cbool" (.exactly 1) cBool,
    .ofAnswer "hex" (.exactly 1) (inRadix 16),
    .ofAnswer "oct" (.exactly 1) (inRadix 8),
    .ofAnswer "int" (.exactly 1) (onFloat (Number.roundTo .down)),
    .ofAnswer "fix" (.exactly 1) (onFloat (Number.roundTo .towardZero)),
    .ofAnswer "abs" (.exactly 1) abs,
    .ofAnswer "sgn" (.exactly 1) sgn,
    .ofAnswer "round" (.between 1 2) round,
    .ofAnswer "sqr" (.exactly 1) sqr,
    .ofAnswer "formatnumber" (.between 1 5) formatNumber]

end ServerScript.Function
