import ServerScript.Machine.Run

/-! Built-in functions: what they are called with and how they refuse it. -/
namespace ServerScript.Function

structure Arity where
  least : Nat
  /-- Without a bound any number from `least` on is taken. -/
  most : Option Nat
  deriving DecidableEq, Repr, Inhabited, BEq

namespace Arity

def exactly (n : Nat) : Arity := ⟨n, some n⟩

def between (least most : Nat) : Arity := ⟨least, some most⟩

def admits (a : Arity) (n : Nat) : Bool := a.least ≤ n && a.most.all (n ≤ ·)

end Arity

/-- The result of a function that neither looks at the state of the script nor changes it. -/
abbrev Answer := Except Stop Value

structure Builtin where
  /-- The name in small letters. -/
  name : String
  arity : Arity
  run : List Value → Run Value

def Builtin.ofAnswer (name : String) (arity : Arity) (f : List Value → Answer) : Builtin :=
  ⟨name, arity, fun args => Run.ofStop (f args)⟩

/-- An entry for a function of one argument that always has a result. -/
def Builtin.ofValue (name : String) (f : Value → Value) : Builtin :=
  .ofAnswer name (.exactly 1) fun args => .ok (f (Value.arg args 0))

def refuse (e : EvalError) : Except Stop α := .error (.error e)

def invalid (name : String) : Except Stop α := refuse (.invalidArgument name)

def mismatch (name : String) : Except Stop α := refuse (.typeMismatch name)

def wordArg (args : List Value) (index : Nat) (omitted : Int64) : Int64 :=
  let v := Value.arg args index
  if v.isEmpty then omitted else v.toWord

def textArg (args : List Value) (index : Nat) : String := (Value.arg args index).toText

def charsArg (args : List Value) (index : Nat) : List Char := (textArg args index).toList

def modeArg (args : List Value) (index : Nat) : CompareMode :=
  CompareMode.ofValue (Value.arg args index)

def count (n : Int64) (name : String) : Except Stop Nat :=
  if n.toInt < 0 then invalid name else .ok n.toInt.toNat

def positionFrom (n : Int64) (name : String) : Except Stop Nat :=
  if n.toInt < 1 then invalid name else .ok (n.toInt - 1).toNat

def bound (n : Int) : Option Nat := if n < 0 then none else some n.toNat

def passNull (f : List Value → Answer) (args : List Value) : Answer :=
  if (Value.arg args 0).isNull then .ok .null else f args

def ofChars (cs : List Char) : Value := .string (String.ofList cs)

def ofNumber (n : Int) : Value := .integer (Int64.ofInt n)

end ServerScript.Function
