import ServerScript.Number.Word

/-! Double-precision numbers through their bits. A finite number is `± mantissa · 2 ^ exponent`
with a natural mantissa; rounding to integers is done on that pair, exactly. -/
namespace ServerScript.Number

inductive Reading where
  | notANumber
  | infinite (negative : Bool)
  | finite (negative : Bool) (mantissa : Nat) (exponent : Int)
  deriving Repr, DecidableEq

def read (x : Float) : Reading :=
  let bits := x.toBits.toNat
  let negative := bits / 0x8000000000000000 == 1
  let scale : Nat := bits / 0x10000000000000 % 0x800
  let fraction : Nat := bits % 0x10000000000000
  if scale == 2047 then
    if fraction == 0 then .infinite negative else .notANumber
  else if scale == 0 then .finite negative fraction (-1074)
  else .finite negative (0x10000000000000 + fraction) ((scale : Int) - 1075)

/-- Where a number halfway between two neighbours goes. -/
inductive Tie where
  | toEven
  | up
  deriving Repr, DecidableEq

def Tie.rises : Tie → Nat → Bool
  | toEven, q => q % 2 == 1
  | up, _ => true

/-- The quotient nearest to `n / d`, a half going as `tie` says. -/
def divNearest (tie : Tie) (n d : Nat) : Nat :=
  let q := n / d
  let r := n % d
  if 2 * r < d then q else if d < 2 * r then q + 1 else if tie.rises q then q + 1 else q

inductive Rounding where
  | down
  | towardZero
  | halfEven
  deriving Repr, DecidableEq

def wholeMagnitude (rounding : Rounding) (negative : Bool) (mantissa : Nat) (exponent : Int) : Nat :=
  if 0 ≤ exponent then mantissa * Nat.pow 2 exponent.toNat
  else
    let unit := Nat.pow 2 (-exponent).toNat
    match rounding with
    | .towardZero => mantissa / unit
    | .halfEven => divNearest .toEven mantissa unit
    | .down =>
      if negative && mantissa % unit != 0 then mantissa / unit + 1 else mantissa / unit

def signed (negative : Bool) (n : Nat) : Int := if negative then -n else n

def toWhole? (rounding : Rounding) (x : Float) : Option Int :=
  match read x with
  | .finite negative mantissa exponent =>
    some (signed negative (wholeMagnitude rounding negative mantissa exponent))
  | _ => none

def ofInt (n : Int) : Float := Float.ofInt n

def ofWord (w : Int64) : Float := ofInt w.toInt

/-- Rounds within the doubles. A number that has no fraction is left alone, and a result of zero
keeps the sign of its argument. -/
def roundTo (rounding : Rounding) (x : Float) : Float :=
  match read x with
  | .finite negative mantissa exponent =>
    if 0 ≤ exponent then x
    else
      let whole := Float.ofNat (wholeMagnitude rounding negative mantissa exponent)
      if negative then -whole else whole
  | _ => x

def isWhole (x : Float) : Bool :=
  match read x with
  | .finite _ mantissa exponent =>
    0 ≤ exponent || mantissa % Nat.pow 2 (-exponent).toNat == 0
  | _ => false

def isFinite (x : Float) : Bool :=
  match read x with
  | .finite .. => true
  | _ => false

/-- The word nearest to a double after rounding; numbers that are not finite give zero. -/
def toWord (rounding : Rounding) (x : Float) : Int64 :=
  match toWhole? rounding x with
  | some n => clampWord n
  | none => 0

/-- The word a conversion without rounding gives: the fraction is dropped, values beyond the
range give its end, and a number that is not one gives zero. -/
def saturate (x : Float) : Int64 :=
  match read x with
  | .notANumber => 0
  | .infinite negative => if negative then Int64.ofInt wordMin else Int64.ofInt wordMax
  | .finite negative mantissa exponent =>
    clampWord (signed negative (wholeMagnitude .towardZero negative mantissa exponent))

/-- A power with a natural exponent by repeated squaring, rounding after every product. -/
def powerNat (base : Float) (n : Nat) : Float := go base n 1.0 n
where
  /-- `fuel` bounds the number of binary digits of the exponent. -/
  go (base : Float) (n : Nat) (acc : Float) : Nat → Float
    | 0 => acc
    | fuel + 1 =>
      let acc := if n % 2 = 1 then acc * base else acc
      if n / 2 = 0 then acc else go (base * base) (n / 2) acc fuel

end ServerScript.Number
