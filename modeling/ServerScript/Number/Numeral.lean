import ServerScript.Number.Binary64
import ServerScript.Text.Blank

/-! Numerals in texts. A numeral is a decimal integer, a hexadecimal or octal integer behind `&h`
or `&o`, or a decimal fraction with an optional exponent. Integers that do not fit a word fall
through to fractions, marked ones do not. -/
namespace ServerScript.Number

/-- A number read from a text or a value: whole kinds stay whole. -/
inductive Numeric where
  | int (n : Int64)
  | float (x : Float)

def Numeric.toFloat : Numeric → Float
  | .int n => ofWord n
  | .float x => x

def Numeric.isInt : Numeric → Bool
  | .int _ => true
  | .float _ => false

def digitValue (c : Char) : Nat :=
  if '0' ≤ c ∧ c ≤ '9' then c.toNat - '0'.toNat
  else if 'a' ≤ c ∧ c ≤ 'z' then c.toNat - 'a'.toNat + 10
  else if 'A' ≤ c ∧ c ≤ 'Z' then c.toNat - 'A'.toNat + 10
  else 36

def digits? (radix : Nat) (cs : List Char) : Option Nat :=
  if cs ≠ [] ∧ cs.all (digitValue · < radix) then
    some (cs.foldl (fun n c => n * radix + digitValue c) 0)
  else none

def significant (ds : List Char) : List Char := ds.dropWhile (· == '0')

/-- The value of digits that are meant for a word. More than sixty-four significant ones never
fit. -/
def wordDigits? (radix : Nat) (cs : List Char) : Option Nat :=
  if 64 < (significant cs).length then none else digits? radix cs

def takeSign : List Char → Bool × List Char
  | '-' :: rest => (true, rest)
  | '+' :: rest => (false, rest)
  | cs => (false, cs)

def integer? (radix : Nat) (cs : List Char) : Option Int64 :=
  let (negative, ds) := takeSign cs
  (wordDigits? radix ds).bind fun n => word? (signed negative n)

/-- A natural number below a limit of at most `2 ^ 64`, with an optional plus sign. -/
def natural? (limit : Nat) (cs : List Char) : Option Nat :=
  let ds := match cs with
    | '+' :: rest => rest
    | _ => cs
  (wordDigits? 10 ds).bind fun n => if n < limit then some n else none

def isDigit (c : Char) : Bool := '0' ≤ c && c ≤ '9'

def spanDigits (cs : List Char) : List Char × List Char := (cs.takeWhile isDigit, cs.dropWhile isDigit)

/-- A decimal fraction in parts: `± digits · 10 ^ exponent`. -/
structure Fraction where
  negative : Bool
  digits : Nat
  exponent : Int
  deriving Repr, DecidableEq

/-- The value of decimal digits as far as they are needed: once it has reached `cap`, the digits
that follow are left out. -/
def cappedValue (cap : Nat) (ds : List Char) : Nat :=
  ds.foldl (fun n c => if n < cap then n * 10 + digitValue c else n) 0

/-- The optional exponent that must end the text, read up to a cap. -/
def exponent? (cap : Nat) : List Char → Option Int
  | [] => some 0
  | c :: rest =>
    if c = 'e' ∨ c = 'E' then
      let (negative, ds) := takeSign rest
      if ds ≠ [] ∧ ds.all isDigit then some (signed negative (cappedValue cap ds)) else none
    else none

/-- The cap on exponents in texts, far beyond the range of doubles. Only a text with as many
digits can tell. -/
def exponentCap : Nat := 0x10000

/-- The number of significant digits that decide how a fraction is rounded. No number halfway
between two doubles has as many. -/
def digitLimit : Nat := 800

/-- The digits that count, and how many places were left out behind them. Of the digits beyond the
limit it only matters whether they are all zero; if not, a one stands for them. -/
def condensed (ds : List Char) : List Char × Nat :=
  let ds := significant ds
  let rest := ds.drop digitLimit
  if rest.all (· == '0') then (ds.take digitLimit, rest.length)
  else (ds.take digitLimit ++ ['1'], rest.length - 1)

/-- Reads a sign, digits with an optional point among or around them, and an exponent. -/
def fraction? (cs : List Char) : Option Fraction :=
  let (negative, rest) := takeSign cs
  let (whole, rest) := spanDigits rest
  let (part, rest) :=
    match rest with
    | '.' :: more => spanDigits more
    | _ => ([], rest)
  if whole = [] ∧ part = [] then none
  else
    let (ds, left) := condensed (whole ++ part)
    (exponent? exponentCap rest).map fun e =>
      ⟨negative, ds.foldl (fun n c => n * 10 + digitValue c) 0, e - part.length + left⟩

/-- The double nearest to a decimal fraction. Exponents far outside the range of doubles are cut
short before any power is formed. -/
def Fraction.toFloat (f : Fraction) : Float :=
  let lead := f.exponent + (Nat.toDigits 10 f.digits).length
  let magnitude : Float :=
    if f.digits = 0 ∨ lead < -400 then 0.0
    else if 400 < lead then 1.0 / 0.0
    else Float.ofScientific f.digits (f.exponent < 0) f.exponent.natAbs
  if f.negative then -magnitude else magnitude

def radixMark? : List Char → Option (Nat × List Char)
  | '&' :: c :: rest =>
    if c = 'h' ∨ c = 'H' then some (16, rest)
    else if c = 'o' ∨ c = 'O' then some (8, rest)
    else none
  | _ => none

def numeralOf? (cs : List Char) : Option Numeric :=
  match integer? 10 cs with
  | some n => some (.int n)
  | none =>
    match radixMark? cs with
    | some (radix, ds) => (integer? radix ds).map .int
    | none => (fraction? cs).map fun f => .float f.toFloat

def numeral? (text : String) : Option Numeric :=
  numeralOf? (Text.trimBoth Text.isBlank text.toList)

end ServerScript.Number
