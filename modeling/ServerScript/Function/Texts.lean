import ServerScript.Function.Basic
import ServerScript.Text.Search

/-! Functions on texts. Positions count characters from one. -/
namespace ServerScript.Function

def len : List Value → Answer := passNull fun args =>
  .ok (Value.ofNat (charsArg args 0).length)

def left : List Value → Answer := passNull fun args => do
  let n ← count (Value.arg args 1).toWord "Left"
  return ofChars ((charsArg args 0).take n)

def right : List Value → Answer := passNull fun args => do
  let n ← count (Value.arg args 1).toWord "Right"
  let cs := charsArg args 0
  return ofChars (cs.drop (cs.length - n))

/-- The characters from a position on, all of them or a given number. -/
def mid : List Value → Answer := passNull fun args => do
  let start ← positionFrom (Value.arg args 1).toWord "Mid"
  let rest := (charsArg args 0).drop start
  let size := Value.arg args 2
  if size.isEmpty then return ofChars rest
  let n ← count size.toWord "Mid"
  return ofChars (rest.take n)

def onText (f : String → String) : List Value → Answer := passNull fun args =>
  .ok (.string (f (textArg args 0)))

def isSpace (c : Char) : Bool := c == ' '

def onChars (f : List Char → List Char) (text : String) : String := String.ofList (f text.toList)

/-- The arguments of `InStr`: a starting position in front is optional. -/
def inStrParts : List Value → Int64 × Value × Value × CompareMode
  | [text, needle] => (1, text, needle, .binary)
  | start :: text :: needle :: rest =>
    (start.toWord, text, needle, if rest.isEmpty then .binary else modeArg rest 0)
  | args => (1, Value.arg args 0, Value.arg args 1, .binary)

def inStr (args : List Value) : Answer := do
  let (start, text, needle, mode) := inStrParts args
  if text.isNull || needle.isNull then return .null
  let start ← positionFrom start "InStr"
  let found := Text.find? mode needle.toText.toList text.toText.toList start
  return Value.ofNat (found.elim 0 (· + 1))

def inStrRevStop (n : Int64) (length : Nat) : Except Stop Nat :=
  if n = -1 then .ok length
  else if n.toInt < 1 then invalid "InStrRev"
  else .ok n.toInt.toNat

/-- The position of the last occurrence that ends before a position, or zero. An empty text is
found at the end. -/
def inStrRev (args : List Value) : Answer := do
  if (args.take 2).any Value.isNull then return .null
  let mode := modeArg args 3
  let text := charsArg args 0
  let needle := charsArg args 1
  let stop ← inStrRevStop (wordArg args 2 (-1)) text.length
  if text.length < stop then return ofNumber 0
  match Text.findLast? mode needle text stop with
  | some i => return Value.ofNat (if needle.isEmpty then i else i + 1)
  | none => return ofNumber 0

def replace : List Value → Answer := passNull fun args => do
  let start ← positionFrom (wordArg args 3 1) "Replace"
  let rest := (charsArg args 0).drop start
  return ofChars (Text.replace (modeArg args 5) (charsArg args 1) (charsArg args 2) rest
    (bound (wordArg args 4 (-1)).toInt))

def separatorArg (args : List Value) (index : Nat) : String :=
  if (Value.arg args index).isEmpty then " " else textArg args index

def cutsOf (limit : Int64) : Option Nat :=
  if limit.toInt < 0 then none else some (limit.toInt - 1).toNat

def splitPieces (args : List Value) : List (List Char) :=
  Text.split (modeArg args 3) (separatorArg args 1).toList (charsArg args 0)
    (cutsOf (wordArg args 2 (-1)))

def split (args : List Value) : Run Value := Run.newArray ((splitPieces args).map ofChars)

def itemsArg (args : List Value) (name : String) : Run ArrayCell := do
  match Value.arg args 0 with
  | .array cell => return (((← get).heap).array? cell).getD {}
  | _ => Run.error (.typeMismatch name)

def joinTexts (separator : String) (items : List Value) : String :=
  separator.intercalate (items.map Value.toText)

def join (args : List Value) : Run Value := do
  let a ← itemsArg args "Join"
  return .string (joinTexts (separatorArg args 1) a.items.toList)

def space (args : List Value) : Answer := do
  let n ← count (Value.arg args 0).toWord "Space"
  return ofChars (List.replicate n ' ')

def charOf? (n : Int64) : Option Char :=
  if 0 ≤ n.toInt ∧ n.toInt.toNat.isValidChar then some (Char.ofNat n.toInt.toNat) else none

/-- The character to repeat: by its code, or the first one of a text. -/
def charArg? (v : Value) : Option Char := if v.isPosition then charOf? v.toWord else v.toText.toList.head?

def string (args : List Value) : Answer := do
  let n ← count (Value.arg args 0).toWord "String"
  match charArg? (Value.arg args 1) with
  | some c => return ofChars (List.replicate n c)
  | none => invalid "String"

def strComp (args : List Value) : Answer :=
  if (args.take 2).any Value.isNull then .ok .null
  else
    let mode := modeArg args 2
    let a := textArg args 0
    let b := textArg args 1
    .ok (ofNumber (if textBefore mode a b then -1 else if sameText mode a b then 0 else 1))

def asc (args : List Value) : Answer :=
  match charsArg args 0 with
  | c :: _ => .ok (Value.ofNat c.toNat)
  | [] => invalid "Asc"

def chr (args : List Value) : Answer :=
  match charOf? (Value.arg args 0).toWord with
  | some c => .ok (ofChars [c])
  | none => invalid "Chr"

def textFunctions : List Builtin :=
  [.ofAnswer "len" (.exactly 1) len,
    .ofAnswer "left" (.exactly 2) left,
    .ofAnswer "right" (.exactly 2) right,
    .ofAnswer "mid" (.between 2 3) mid,
    .ofAnswer "ucase" (.exactly 1) (onText Text.upper),
    .ofAnswer "lcase" (.exactly 1) (onText Text.lower),
    .ofAnswer "trim" (.exactly 1) (onText (onChars (Text.trimBoth isSpace))),
    .ofAnswer "ltrim" (.exactly 1) (onText (onChars (Text.trimLeft isSpace))),
    .ofAnswer "rtrim" (.exactly 1) (onText (onChars (Text.trimRight isSpace))),
    .ofAnswer "instr" (.between 2 4) inStr,
    .ofAnswer "instrrev" (.between 2 4) inStrRev,
    .ofAnswer "replace" (.between 3 6) replace,
    ⟨"split", .between 1 4, split⟩,
    ⟨"join", .between 1 2, join⟩,
    .ofAnswer "strreverse" (.exactly 1) (onText (onChars List.reverse)),
    .ofAnswer "space" (.exactly 1) space,
    .ofAnswer "string" (.exactly 2) string,
    .ofAnswer "strcomp" (.between 2 3) strComp,
    .ofAnswer "asc" (.exactly 1) asc,
    .ofAnswer "chr" (.exactly 1) chr]

end ServerScript.Function
