import ServerScript.Value.Compare

/-! Unary and binary operators. Whole numbers stay whole while the exact result fits a word and
become doubles otherwise. `Null` passes through every operator but identity and joining. -/
namespace ServerScript.Operator

open Number (Numeric)

def bits (v : Value) : Int32 := Number.low32 v.toWord

def ofBits (n : Int32) : Value := .integer n.toInt64

/-- The exact integer result if it fits a word, otherwise the double one. -/
def arithmetic (exact : Int → Int → Int) (rounded : Float → Float → Float) (lhs rhs : Value) :
    Value :=
  match lhs.toNumeric, rhs.toNumeric with
  | .int a, .int b =>
    match Number.word? (exact a.toInt b.toInt) with
    | some n => .integer n
    | none => .float (rounded (Number.ofWord a) (Number.ofWord b))
  | a, b => .float (rounded a.toFloat b.toFloat)

def logical (onBools : Bool → Bool → Bool) (onBits : Int32 → Int32 → Int32) : Value → Value → Value
  | .bool a, .bool b => .bool (onBools a b)
  | a, b => ofBits (onBits (bits a) (bits b))

def divisionWords (lhs rhs : Value) : Except EvalError (Int64 × Int64) :=
  if rhs.toWord = 0 then .error .divisionByZero else .ok (lhs.toWord, rhs.toWord)

def negate (v : Value) : Value :=
  match v.toNumeric with
  | .int n =>
    match Number.word? (-n.toInt) with
    | some m => .integer m
    | none => .float (-(Number.ofWord n))
  | .float x => .float (-x)

def unary (op : UnaryOp) (operand : Value) : Value :=
  if operand.isNull then .null
  else
    match op, operand with
    | .neg, v => negate v
    | .not, .bool b => .bool !b
    | .not, v => ofBits (~~~ (bits v))

def quotient (a b : Int64) : Value :=
  match Number.word? (Int.tdiv a.toInt b.toInt) with
  | some n => .integer n
  | none => .float (Number.roundTo .towardZero (Number.ofWord a / Number.ofWord b))

def remainder (a b : Int64) : Value := .integer ((Number.word? (Int.tmod a.toInt b.toInt)).getD 0)

def passesNull : BinaryOp → Bool
  | .is | .concat => false
  | _ => true

def binary (mode : CompareMode) (op : BinaryOp) (lhs rhs : Value) : Except EvalError Value :=
  if passesNull op && (lhs.isNull || rhs.isNull) then .ok .null
  else
    match op with
    | .is => .ok (.bool (lhs.sameReference rhs))
    | .concat => .ok (.string (lhs.toText ++ rhs.toText))
    | .add =>
      match lhs, rhs with
      | .string a, .string b => .ok (.string (a ++ b))
      | a, b => .ok (arithmetic (· + ·) (· + ·) a b)
    | .sub => .ok (arithmetic (· - ·) (· - ·) lhs rhs)
    | .mul => .ok (arithmetic (· * ·) (· * ·) lhs rhs)
    | .div =>
      let divisor := rhs.toFloat
      if divisor == 0.0 then .error .divisionByZero else .ok (.float (lhs.toFloat / divisor))
    | .intDiv => (divisionWords lhs rhs).map fun (a, b) => quotient a b
    | .mod => (divisionWords lhs rhs).map fun (a, b) => remainder a b
    | .pow => .ok (.float (lhs.toFloat.pow rhs.toFloat))
    | .eq => .ok (.bool (Value.looseEq mode lhs rhs))
    | .ne => .ok (.bool !(Value.looseEq mode lhs rhs))
    | .lt => .ok (.bool (Value.less mode lhs rhs))
    | .le => .ok (.bool !(Value.less mode rhs lhs))
    | .gt => .ok (.bool (Value.less mode rhs lhs))
    | .ge => .ok (.bool !(Value.less mode lhs rhs))
    | .and => .ok (logical (· && ·) (· &&& ·) lhs rhs)
    | .or => .ok (logical (· || ·) (· ||| ·) lhs rhs)
    | .xor => .ok (logical (· ^^ ·) (· ^^^ ·) lhs rhs)
    | .eqv => .ok (logical (· == ·) (fun a b => ~~~ (a ^^^ b)) lhs rhs)
    | .imp => .ok (logical (fun a b => !a || b) (fun a b => ~~~ a ||| b) lhs rhs)

theorem unary_null (op : UnaryOp) : unary op .null = .null := rfl

end ServerScript.Operator
