import ServerScript.Json.Basic
import ServerScript.Number.Numeral

/-! Reading JSON texts and the scalars in them. At most 127 arrays and objects may be nested in
one another; what lies deeper is checked for its form and then kept as unreadable. -/
namespace ServerScript.Json

def depthLimit : Nat := 127

def isGap (c : Char) : Bool := c = ' ' || c = '\n' || c = '\t' || c = '\r'

def skipGaps (cs : List Char) : List Char := cs.dropWhile isGap

def hex4? : List Char → Option (Nat × List Char)
  | a :: b :: c :: d :: rest =>
    (Number.digits? 16 [a, b, c, d]).map (·, rest)
  | _ => none

/-- The characters up to the closing quote; a lone surrogate makes the whole text unreadable. -/
def textBody (fuel : Nat) (acc : List Char) (readable : Bool) :
    List Char → Option (Option String × List Char)
  | '"' :: rest => some (if readable then some (String.ofList acc.reverse) else none, rest)
  | '\\' :: c :: rest =>
    match fuel with
    | 0 => none
    | fuel + 1 =>
      let plain (x : Char) := textBody fuel (x :: acc) readable rest
      match c with
      | '"' => plain '"'
      | '\\' => plain '\\'
      | '/' => plain '/'
      | 'b' => plain '\x08'
      | 'f' => plain '\x0c'
      | 'n' => plain '\n'
      | 'r' => plain '\r'
      | 't' => plain '\t'
      | 'u' =>
        match hex4? rest with
        | none => none
        | some (high, rest) =>
          if 0xd800 ≤ high ∧ high < 0xdc00 then
            match rest with
            | '\\' :: 'u' :: more =>
              match hex4? more with
              | none => none
              | some (low, after) =>
                if 0xdc00 ≤ low ∧ low < 0xe000 then
                  let code := 0x10000 + (high - 0xd800) * 0x400 + (low - 0xdc00)
                  textBody fuel (Char.ofNat code :: acc) readable after
                else textBody fuel acc false rest
            | _ => textBody fuel acc false rest
          else if 0xdc00 ≤ high ∧ high < 0xe000 then textBody fuel acc false rest
          else textBody fuel (Char.ofNat high :: acc) readable rest
      | _ => none
  | c :: rest =>
    match fuel with
    | 0 => none
    | fuel + 1 => if c.toNat < 0x20 then none else textBody fuel (c :: acc) readable rest
  | [] => none

def takeMinus : List Char → List Char × List Char
  | '-' :: rest => (['-'], rest)
  | cs => ([], cs)

def isWhole : List Char → Bool
  | [] => false
  | ['0'] => true
  | c :: _ => c != '0'

def takeFraction? : List Char → Option (List Char × List Char)
  | '.' :: more =>
    let (ds, rest) := Number.spanDigits more
    if ds = [] then none else some ('.' :: ds, rest)
  | cs => some ([], cs)

def takePower? : List Char → Option (List Char × List Char)
  | [] => some ([], [])
  | c :: more =>
    if c = 'e' ∨ c = 'E' then
      let (s, more) := match more with
        | '+' :: m => (['+'], m)
        | _ => takeMinus more
      let (ds, rest) := Number.spanDigits more
      if ds = [] then none else some (c :: s ++ ds, rest)
    else some ([], c :: more)

/-- The number at the front: a sign, digits without a leading zero, a fraction, an exponent. -/
def numberToken? (cs : List Char) : Option (String × List Char) :=
  let (sign, rest) := takeMinus cs
  let (whole, rest) := Number.spanDigits rest
  if isWhole whole then
    (takeFraction? rest).bind fun (fraction, rest) =>
      (takePower? rest).map fun (power, rest) =>
        (String.ofList (sign ++ whole ++ fraction ++ power), rest)
  else none

mutual

/-- A value with gaps allowed before it. `depth` counts the containers that may still open. -/
def value? (fuel depth : Nat) (cs : List Char) : Option (Json × List Char) :=
  match fuel with
  | 0 => none
  | fuel + 1 =>
    match skipGaps cs with
    | 'n' :: 'u' :: 'l' :: 'l' :: rest => some (.null, rest)
    | 't' :: 'r' :: 'u' :: 'e' :: rest => some (.bool true, rest)
    | 'f' :: 'a' :: 'l' :: 's' :: 'e' :: rest => some (.bool false, rest)
    | '"' :: rest =>
      (textBody fuel [] true rest).map fun (text, rest) =>
        (text.elim .unreadable .string, rest)
    | '[' :: rest =>
      let items := match skipGaps rest with
        | ']' :: rest => some ([], rest)
        | _ => items? fuel (depth - 1) rest
      items.map fun (items, rest) => (if depth = 0 then .unreadable else .array items, rest)
    | '\x7b' :: rest =>
      let fields := match skipGaps rest with
        | '\x7d' :: rest => some (some [], rest)
        | _ => fields? fuel (depth - 1) rest
      fields.map fun (fields, rest) =>
        (if depth = 0 then .unreadable else fields.elim .unreadable .object, rest)
    | rest => (numberToken? rest).map fun (token, rest) => (.number token, rest)

def items? (fuel depth : Nat) (cs : List Char) : Option (List Json × List Char) :=
  match fuel with
  | 0 => none
  | fuel + 1 =>
    match value? fuel depth cs with
    | none => none
    | some (item, rest) =>
      match skipGaps rest with
      | ',' :: rest => (items? fuel depth rest).map fun (items, rest) => (item :: items, rest)
      | ']' :: rest => some ([item], rest)
      | _ => none

/-- Fields up to the closing brace, at least one; nothing readable if a name is not. -/
def fields? (fuel depth : Nat) (cs : List Char) :
    Option (Option (List (String × Json)) × List Char) :=
  match fuel with
  | 0 => none
  | fuel + 1 =>
    match skipGaps cs with
    | '"' :: rest =>
      match textBody fuel [] true rest with
      | none => none
      | some (name, rest) =>
        match skipGaps rest with
        | ':' :: rest =>
          match value? fuel depth rest with
          | none => none
          | some (item, rest) =>
            match skipGaps rest with
            | ',' :: rest =>
              (fields? fuel depth rest).map fun (fields, rest) =>
                (name.bind fun name => fields.map ((name, item) :: ·), rest)
            | '\x7d' :: rest => some (name.map fun name => [(name, item)], rest)
            | _ => none
        | _ => none
    | _ => none

end

def parse? (text : String) : Option Json :=
  let cs := text.toList
  match value? (2 * cs.length + 2) depthLimit cs with
  | some (json, rest) => if skipGaps rest = [] then some json else none
  | none => none

structure Token where
  negative : Bool
  whole : List Char
  fraction : List Char
  power : Option Int

/-- The cap on written powers, the first one that no machine integer holds. -/
def powerCap : Nat := 0x80000000

def tokenOf (text : String) : Token :=
  let (negative, rest) := Number.takeSign text.toList
  let (whole, rest) := Number.spanDigits rest
  let (fraction, rest) := match rest with
    | '.' :: more => Number.spanDigits more
    | _ => ([], rest)
  ⟨negative, whole, fraction, if rest = [] then none else Number.exponent? powerCap rest⟩

/-- The integer written by a token without fraction and exponent. A minus sign before zero marks
a fraction. -/
def Token.int? (t : Token) (text : String) : Option Int :=
  if text.toList.any fun c => c = '.' || c = 'e' || c = 'E' then none
  else
    (Number.wordDigits? 10 t.whole).bind fun n =>
      if t.negative ∧ n = 0 then none else some (Number.signed t.negative n)

def significandMax : Nat := UInt64.size - 1

/-- Appends digits to the significand while it fits sixty-four bits; gives the significand and
the number of digits taken. -/
def takeSignificand : Nat → Nat → List Char → Nat × Nat
  | n, taken, [] => (n, taken)
  | n, taken, c :: rest =>
    let next := n * 10 + Number.digitValue c
    if significandMax < next then (n, taken) else takeSignificand next (taken + 1) rest

/-- Scales a significand by a power of ten in one rounding step, or in steps of `1e308` when the
power is smaller than any double. Nothing is returned when the result is infinite. -/
def scaled? (fuel : Nat) (x : Float) (e : Int) : Option Float :=
  if e.natAbs ≤ 308 then
    let power := Float.ofScientific 1 false e.natAbs
    if 0 ≤ e then
      let y := x * power
      if Number.isFinite y then some y else none
    else some (x / power)
  else if x == 0.0 then some x
  else if 0 ≤ e then none
  else
    match fuel with
    | 0 => some 0.0
    | fuel + 1 => scaled? fuel (x / Float.ofScientific 1 false 308) (e + 308)

/-- The double written by a token. Digits beyond a sixty-four-bit significand only count for the
magnitude. -/
def Token.float? (t : Token) (text : String) : Option Float :=
  match t.int? text with
  | some n =>
    if n.natAbs ≤ significandMax then some (Number.ofInt n) else fractional
  | none => fractional
where
  /-- The reading of a number that is no machine integer. -/
  fractional : Option Float :=
    let (n, taken) := takeSignificand 0 0 t.whole
    let before : Int := (t.whole.length - taken : Nat)
    let (n, after) := takeSignificand n 0 t.fraction
    let e := before - after + t.power.getD 0
    let magnitude :=
      if t.power.any fun p => powerCap ≤ p.natAbs then
        if n ≠ 0 ∧ t.power.any (0 < ·) then none else some 0.0
      else scaled? 16 (Float.ofNat n) e
    magnitude.map fun x => if t.negative then -x else x

def word? : Json → Option Int64
  | .number token => ((tokenOf token).int? token).bind Number.word?
  | _ => none

def nat? (limit : Nat) : Json → Option Nat
  | .number token =>
    ((tokenOf token).int? token).bind fun n => if 0 ≤ n ∧ n ≤ limit then some n.toNat else none
  | _ => none

def float? : Json → Option Float
  | .number token => (tokenOf token).float? token
  | _ => none

def text? : Json → Option String
  | .string text => some text
  | _ => none

def bool? : Json → Option Bool
  | .bool b => some b
  | _ => none

def list? (read : Json → Option α) : Json → Option (List α)
  | .array items => items.mapM read
  | _ => none

def option? (read : Json → Option α) : Json → Option (Option α)
  | .null => some none
  | json => (read json).map some

/-- The members of a record given as an object, in the order of `names`; fields that are not named
are skipped and none may occur twice. A record may also be given as an array of its members, of
which the last ones may be left out. -/
def record? (names : List String) : Json → Option (List (Option Json) × Bool)
  | .object fields =>
    let known := fields.filter fun field => names.contains field.1
    if (known.map (·.1)).Nodup then
      some (names.map fun name => (known.find? (·.1 == name)).map (·.2), true)
    else none
  | .array items =>
    if items.length ≤ names.length then
      some (items.map some ++ List.replicate (names.length - items.length) none, false)
    else none
  | _ => none

def tagged? : Json → Option (String × Option Json)
  | .string tag => some (tag, none)
  | .object [(tag, content)] => some (tag, some content)
  | _ => none

end ServerScript.Json
