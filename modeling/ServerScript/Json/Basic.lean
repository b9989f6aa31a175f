import ServerScript.Number.Decimal

/-! JSON values. Numbers keep their written form, because a reader decides whether it wants a
word, a natural number or a double. Fields of an object keep their order. -/
namespace ServerScript

inductive Json where
  | null
  | bool (b : Bool)
  | number (token : String)
  | string (text : String)
  | array (items : List Json)
  | object (fields : List (String × Json))
  /-- A well-formed value that no reader accepts: it is nested too deep, or a text in it holds
  half of a surrogate pair. It may still be skipped. -/
  | unreadable
  deriving Inhabited, BEq

namespace Json

def field? (name : String) : Json → Option Json
  | .object fields => (fields.find? (·.1 == name)).map (·.2)
  | _ => none

def int (n : Int) : Json := .number (toString n)

def nat (n : Nat) : Json := .number (toString n)

/-- A double in its shortest form: positional from `1e-5` up to below `1e16`, always with a point
or an exponent, whose sign is always written. Of two forms equally near the one with the even
last digit is written. -/
def floatToken (x : Float) : String :=
  match Number.read x with
  | .finite negative mantissa exponent =>
    if mantissa = 0 then String.ofList (Number.withSign negative ['0', '.', '0'])
    else
      let d := Number.shortest .toEven mantissa exponent
      let ds := Number.digitsOf d.digits
      let point := d.exponent + ds.length
      let body :=
        if 0 ≤ d.exponent ∧ point ≤ 16 then ds ++ Number.zeros d.exponent.toNat ++ ['.', '0']
        else if -5 < point ∧ point ≤ 16 then d.positional
        else
          let e := point - 1
          let tail :=
            (if e < 0 then ['e', '-'] else ['e', '+']) ++ Number.digitsOf e.natAbs
          match ds with
          | [] => tail
          | [c] => c :: tail
          | c :: rest => c :: '.' :: rest ++ tail
      String.ofList (Number.withSign negative body)
  | _ => "null"

end Json
end ServerScript
