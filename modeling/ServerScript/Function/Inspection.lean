import ServerScript.Function.Texts

/-! Questions about values, functions on arrays and the creation of objects. -/
namespace ServerScript.Function

def isNumeric : Value → Bool
  | .empty | .bool _ | .integer _ | .float _ => true
  | .string s => (Number.numeral? s).isSome
  | _ => false

/-- The first and last index of a dimension, the first one if it is omitted. -/
def boundsArg (args : List Value) (name : String) : Run (Int64 × Int64) := do
  let a ← itemsArg args name
  let bounds ← Run.ofFault ((← get).heap.bounds a (wordArg args 1 1).toInt.toNat)
  match bounds with
  | some pair => return pair
  | none => Run.error .subscriptOutOfRange

def uBound (args : List Value) : Run Value := do
  return .integer (← boundsArg args "UBound").2

def lBound (args : List Value) : Run Value := do
  return .integer (← boundsArg args "LBound").1

/-- The texts of an array in which another text occurs, or in which it does not. -/
def filter (args : List Value) : Run Value := do
  let a ← itemsArg args "Filter"
  let mode := modeArg args 3
  let needle := charsArg args 1
  let keep := Value.arg args 2
  let keepFound := keep.isEmpty || keep.isTruthy
  let found (text : String) : Bool := (Text.find? mode needle text.toList 0).isSome
  let texts := a.items.toList.map Value.toText
  Run.newArray ((texts.filter fun text => found text == keepFound).map .string)

def createObject (progId : String) : Run Value := do
  if Text.lower (Text.trim progId) == "scripting.dictionary" then
    return .object (.dictionary (← Run.onHeap (·.allocDictionary)))
  else Run.error (.cannotCreateObject progId)

def inspectionFunctions : List Builtin :=
  [.ofValue "isnumeric" (fun v => .bool (isNumeric v)),
    .ofValue "isempty" (fun v => .bool v.isEmpty),
    .ofValue "isnull" (fun v => .bool v.isNull),
    .ofValue "isobject" (fun v => .bool v.isObject),
    .ofValue "isarray" (fun v => .bool v.isArray),
    .ofValue "typename" (fun v => .string v.typeName),
    .ofValue "vartype" (fun v => .integer v.varType),
    ⟨"ubound", .between 1 2, uBound⟩,
    ⟨"lbound", .between 1 2, lBound⟩,
    ⟨"array", ⟨0, none⟩, Run.newArray⟩,
    ⟨"filter", .between 2 4, filter⟩,
    ⟨"createobject", .between 1 2, fun args => createObject (textArg args 0)⟩]

end ServerScript.Function
