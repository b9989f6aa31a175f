import ServerScript.Value.Basic
import ServerScript.Number.Decimal
import ServerScript.Number.Numeral

/-! Conversions between the kinds of values. Every conversion is total: what has no text is the
empty text, and what has no numeric reading counts as zero. -/
namespace ServerScript

/-- Whole doubles below `1e15` are written without a fraction, all others in their shortest
form. -/
def floatText (x : Float) : String :=
  if Number.isFinite x && Number.isWhole x && x.abs < 1e15 then
    toString (Number.saturate x).toInt
  else Number.plainText x

namespace Value

def toText : Value → String
  | bool b => if b then "True" else "False"
  | integer n => toString n.toInt
  | float x => floatText x
  | string s => s
  | object ref => ref.typeName
  | inst _ cls => cls.name
  | callable .. => "Object"
  | empty | null | nothing | array _ => ""

def toNumeric? : Value → Option Number.Numeric
  | empty => some (.int 0)
  | bool b => some (.int (if b then -1 else 0))
  | integer n => some (.int n)
  | float x => some (.float x)
  | string s => Number.numeral? s
  | _ => none

def toNumeric (v : Value) : Number.Numeric := v.toNumeric?.getD (.int 0)

/-- The word of a value; a fraction goes to the nearest word, a half to the even one. -/
def toWord (v : Value) : Int64 :=
  match v.toNumeric with
  | .int n => n
  | .float x => Number.toWord .halfEven x

def toFloat (v : Value) : Float := v.toNumeric.toFloat

def ofNumeric : Number.Numeric → Value
  | .int n => integer n
  | .float x => float x

def ofNat (n : Nat) : Value := integer (Int64.ofNat n)

/-- Truth in conditions: numbers that are not zero and texts that are not empty. -/
def isTruthy : Value → Bool
  | empty | null | nothing => false
  | bool b => b
  | integer n => n != 0
  | float x => x != 0.0
  | string s => s != ""
  | _ => true

def arg (args : List Value) (index : Nat) : Value := args.getD index .empty

/-- The position that a key counted from one stands for, if there is one. The smallest word has no
predecessor. -/
def position (key : Value) : Except Fault (Option Nat) :=
  match Number.word? (key.toWord.toInt - 1) with
  | none => .error .subtractOverflow
  | some n => .ok (if 0 ≤ n.toInt then some n.toInt.toNat else none)

theorem position_of_pos {key : Value} (pos : 1 ≤ key.toWord.toInt) :
    key.position = .ok (some (key.toWord.toInt.toNat - 1)) := by
  have high : key.toWord.toInt ≤ Number.wordMax := Int64.toInt_le key.toWord
  have fits : Number.wordMin ≤ key.toWord.toInt - 1 ∧ key.toWord.toInt - 1 ≤ Number.wordMax := by
    unfold Number.wordMin
    omega
  rw [position, Number.word?, if_pos fits]
  dsimp only
  rw [Number.toInt_ofInt_of_fits fits.1 fits.2, if_pos (by omega)]
  congr 2
  omega

def isPosition : Value → Bool
  | integer _ | float _ => true
  | _ => false

end Value

def CompareMode.ofValue (v : Value) : CompareMode := if v.toWord = 0 then .binary else .text

end ServerScript
