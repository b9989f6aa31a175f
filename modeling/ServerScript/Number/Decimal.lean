import ServerScript.Number.Binary64

/-! Decimal texts of doubles. `shortest` finds the fewest digits that read back as the same
double, by trying one digit after another on the exact rational value; `fixed` rounds to a given
number of places. Layouts only arrange the digits found here. -/
namespace ServerScript.Number

structure Decimal where
  digits : Nat
  exponent : Int
  deriving Repr, DecidableEq

def scaleTen (n d : Nat) (e : Int) : Nat × Nat :=
  if 0 ≤ e then (n * Nat.pow 10 e.toNat, d) else (n, d * Nat.pow 10 (-e).toNat)

def reachesDecade (n d : Nat) (e : Int) : Bool :=
  let (n', d') := scaleTen n d (-e)
  d' ≤ n'

/-- The exponent of the leading decimal digit of a positive fraction. -/
def decade (n d : Nat) : Int :=
  let guess := ((n.log2 : Int) - d.log2 - 1) * 30103 / 100000 - 1
  climb guess 4
where
  /-- Moves the guess up while a higher decade is still reached. -/
  climb (e : Int) : Nat → Int
    | 0 => e
    | fuel + 1 => if reachesDecade n d (e + 1) then climb (e + 1) fuel else e

/-- The positive reals that round to one double, as numerators over a common denominator: the
value itself and the ends of its interval, which belong to it when `closed`. -/
structure Interval where
  low : Nat
  value : Nat
  high : Nat
  denominator : Nat
  closed : Bool

/-- The rounding interval of `mantissa · 2 ^ exponent`. Below a power of two the gap to the next
smaller double is half as wide. -/
def interval (mantissa : Nat) (exponent : Int) : Interval :=
  let narrow := mantissa == 0x10000000000000 && exponent != -1074
  let low := if narrow then 4 * mantissa - 1 else 4 * mantissa - 2
  let e := exponent - 2
  let up := if 0 ≤ e then Nat.pow 2 e.toNat else 1
  let down := if 0 ≤ e then 1 else Nat.pow 2 (-e).toNat
  ⟨low * up, 4 * mantissa * up, (4 * mantissa + 2) * up, down, mantissa % 2 == 0⟩

def Interval.holds (i : Interval) (candidate : Decimal) : Bool :=
  let (n, d) := scaleTen candidate.digits 1 candidate.exponent
  let point := n * i.denominator
  if i.closed then i.low * d ≤ point && point ≤ i.high * d
  else i.low * d < point && point < i.high * d

/-- The nearer of the two neighbours on the grid of `10 ^ exponent` that lies in the interval. -/
def Interval.pick (tie : Tie) (i : Interval) (exponent : Int) : Option Decimal :=
  let (n, d) := scaleTen i.value i.denominator (-exponent)
  let below : Decimal := ⟨n / d, exponent⟩
  let above : Decimal := ⟨n / d + 1, exponent⟩
  let nearest := divNearest tie n d
  let first := if nearest = below.digits then below else above
  let second := if nearest = below.digits then above else below
  if i.holds first then some first else if i.holds second then some second else none

def Interval.search (tie : Tie) (i : Interval) (lead : Int) : Nat → Decimal
  | 0 =>
    let (n, d) := scaleTen i.value i.denominator (16 - lead)
    ⟨divNearest tie n d, lead - 16⟩
  | left + 1 =>
    match i.pick tie (lead - (16 - left)) with
    | some found => found
    | none => i.search tie lead left

def Decimal.strip (x : Decimal) : Nat → Decimal
  | 0 => x
  | fuel + 1 =>
    if x.digits % 10 = 0 ∧ x.digits ≠ 0 then Decimal.strip ⟨x.digits / 10, x.exponent + 1⟩ fuel
    else x

/-- The fewest digits that read back as the given positive double, and of these the nearest. A
neighbour that rounds up into the next decade ends in zeros, which are dropped. -/
def shortest (tie : Tie) (mantissa : Nat) (exponent : Int) : Decimal :=
  let i := interval mantissa exponent
  (i.search tie (decade i.value i.denominator) 17).strip 17

def digitsOf (n : Nat) : List Char := Nat.toDigits 10 n

def zeros (n : Nat) : List Char := List.replicate n '0'

def Decimal.positional (x : Decimal) : List Char :=
  let ds := digitsOf x.digits
  if 0 ≤ x.exponent then ds ++ zeros x.exponent.toNat
  else
    let places := (-x.exponent).toNat
    if places < ds.length then
      ds.take (ds.length - places) ++ '.' :: ds.drop (ds.length - places)
    else '0' :: '.' :: zeros (places - ds.length) ++ ds

def withSign (negative : Bool) (cs : List Char) : List Char := if negative then '-' :: cs else cs

/-- The shortest text of a double without an exponent. Of two texts equally near the larger
magnitude is written. -/
def plainText (x : Float) : String :=
  match read x with
  | .notANumber => "NaN"
  | .infinite negative => String.ofList (withSign negative ['i', 'n', 'f'])
  | .finite negative mantissa exponent =>
    if mantissa = 0 then String.ofList (withSign negative ['0'])
    else String.ofList (withSign negative (shortest .up mantissa exponent).positional)

/-- A magnitude with exactly `places` digits after the point, a half going to the even digit. -/
def fixedMagnitude (mantissa : Nat) (exponent : Int) (places : Nat) : List Char :=
  let n := mantissa * Nat.pow 10 places
  let units :=
    if 0 ≤ exponent then n * Nat.pow 2 exponent.toNat
    else divNearest .toEven n (Nat.pow 2 (-exponent).toNat)
  let ds := digitsOf units
  let ds := zeros (places + 1 - ds.length) ++ ds
  if places = 0 then ds
  else ds.take (ds.length - places) ++ '.' :: ds.drop (ds.length - places)

/-- The text of the absolute value of a double with exactly `places` digits after the point. -/
def fixedText (x : Float) (places : Nat) : String :=
  match read x with
  | .notANumber => "NaN"
  | .infinite _ => "inf"
  | .finite _ mantissa exponent => String.ofList (fixedMagnitude mantissa exponent places)

end ServerScript.Number
