import ServerScript.Heap.Basic
import ServerScript.Text.Quoted

/-! Operations on arrays. Functions that follow nested arrays take the remaining depth; one more
than the number of cells is enough, because no array contains itself. -/
namespace ServerScript

def ArrayCell.sizeLimit : Nat := 0x7fffffffffffffff / 24

namespace ArrayCell

/-- The number of elements from `lower` to `upper`; none if that number is no word. -/
def span (lower upper : Int64) : Nat :=
  match (Number.word? (upper.toInt - lower.toInt)).bind fun n => Number.word? (n.toInt + 1) with
  | some n => n.toInt.toNat
  | none => 0

def blank (lower : Int64) (size : Nat) : Except Fault ArrayCell :=
  if sizeLimit < size then .error .capacityOverflow
  else .ok ⟨lower, Array.replicate size .empty⟩

/-- The last index, one below the first for an array without elements. -/
def upper (a : ArrayCell) : Except Fault Int64 :=
  match Number.word? (a.lower.toInt + a.items.size) with
  | none => .error .addOverflow
  | some n =>
    match Number.word? (n.toInt - 1) with
    | none => .error .subtractOverflow
    | some n => .ok n

def offset? (a : ArrayCell) (index : Int64) : Option Nat :=
  (Number.word? (index.toInt - a.lower.toInt)).bind fun n =>
    if 0 ≤ n.toInt ∧ n.toInt < a.items.size then some n.toInt.toNat else none

def get? (a : ArrayCell) (index : Int64) : Option Value :=
  (a.offset? index).bind fun i => a.items[i]?

def put (a : ArrayCell) (i : Nat) (value : Value) : ArrayCell :=
  { a with items := a.items.setIfInBounds i value }

/-- The array with one element replaced, if the index is in range. -/
def set? (a : ArrayCell) (index : Int64) (value : Value) : Option ArrayCell :=
  (a.offset? index).map fun i => a.put i value

def erase (a : ArrayCell) : ArrayCell := { a with items := #[] }

end ArrayCell

namespace Heap

def buildItems (build : Heap → Heap × Value) : Nat → Heap → Array Value → Heap × Array Value
  | 0, h, acc => (h, acc)
  | n + 1, h, acc =>
    let (h, v) := build h
    buildItems build n h (acc.push v)

/-- An array whose dimensions all start at `lower` and end at the given bounds. -/
def withDimensions (lower : Int64) : List Int64 → Heap → Heap × ArrayCell
  | [], h => (h, ⟨lower, #[]⟩)
  | [upper], h => (h, ⟨lower, Array.replicate (ArrayCell.span lower upper) .empty⟩)
  | upper :: next :: rest, h =>
    let build (h : Heap) : Heap × Value :=
      let (h, row) := withDimensions lower (next :: rest) h
      let (h, cell) := h.allocArray row
      (h, .array cell)
    let (h, items) := buildItems build (ArrayCell.span lower upper) h #[]
    (h, ⟨lower, items⟩)

/-- Whether building an array with these bounds asks for too many elements at once. A dimension
without elements hides those after it. -/
def exceedsCapacity (lower : Int64) : List Int64 → Bool
  | [] => false
  | upper :: rest =>
    let size := ArrayCell.span lower upper
    ArrayCell.sizeLimit < size || (0 < size && exceedsCapacity lower rest)

def buildArray (lower : Int64) (uppers : List Int64) (h : Heap) :
    Except Fault (Heap × ArrayCell) :=
  if exceedsCapacity lower uppers then .error .capacityOverflow
  else .ok (withDimensions lower uppers h)

def getPath (h : Heap) : ArrayCell → List Int64 → Option Value
  | _, [] => none
  | a, [index] => a.get? index
  | a, index :: next :: rest =>
    match a.get? index with
    | some (.array inner) => (h.array? inner).bind fun row => h.getPath row (next :: rest)
    | _ => none

/-- Writes through nested arrays, one index for each level. Tells whether there was such an
element. -/
def setPath (h : Heap) (cell : Nat) : List Int64 → Value → Heap × Bool
  | [], _ => (h, false)
  | [index], value =>
    match (h.array? cell).bind (·.offset? index) with
    | some i => (h.modifyArray cell (·.put i value), true)
    | none => (h, false)
  | index :: next :: rest, value =>
    match (h.array? cell).bind (·.get? index) with
    | some (.array inner) => h.setPath inner (next :: rest) value
    | _ => (h, false)

/-- Carries old elements over into the cells of a resized array: rows of both are merged when
dimensions remain, any other old element replaces the new one. -/
def resizePreserve : Nat → Heap → ArrayCell → List Int64 → Except Fault (Heap × ArrayCell)
  | 0, h, a, _ => .ok (h, a)
  | depth + 1, h, old, uppers => do
    let (h, resized) ← buildArray old.lower uppers h
    let rest := uppers.drop 1
    let merge (state : Heap × Array Value) (pair : Value × Value) :
        Except Fault (Heap × Array Value) :=
      match pair with
      | (.array new, .array kept) =>
        match state.1.array? kept with
        | none => .ok (state.1, state.2.push (.array kept))
        | some row => do
          let (h, row) ← resizePreserve depth state.1 row rest
          return (h.setArray new row, state.2.push (.array new))
      | (_, kept) => .ok (state.1, state.2.push kept)
    let (h, front) ←
      if rest.isEmpty then .ok (h, old.items.extract 0 resized.items.size)
      else (resized.items.toList.zip old.items.toList).foldlM merge (h, #[])
    return (h, { resized with items := front ++ resized.items.extract front.size resized.items.size })

/-- Copies arrays, nested ones included, into new cells; other values are taken as they are. -/
def copyValue : Nat → Heap → Value → Heap × Value
  | 0, h, v => (h, v)
  | depth + 1, h, .array cell =>
    match h.array? cell with
    | none => (h, .array cell)
    | some a =>
      let step (state : Heap × Array Value) (v : Value) : Heap × Array Value :=
        let (h, v) := copyValue depth state.1 v
        (h, state.2.push v)
      let (h, items) := a.items.foldl step (h, #[])
      let (h, cell) := h.allocArray ⟨a.lower, items⟩
      (h, .array cell)
  | _ + 1, h, v => (h, v)

def deepCopy (h : Heap) (v : Value) : Heap × Value :=
  match v with
  | .array _ => copyValue h.arrayDepth h v
  | v => (h, v)

def flattenCell (h : Heap) : Nat → ArrayCell → List Value
  | 0, _ => []
  | depth + 1, a =>
    a.items.toList.flatMap fun
      | .array inner => ((h.array? inner).map (h.flattenCell depth)).getD []
      | v => [v]

def flatten (h : Heap) (a : ArrayCell) : List Value := h.flattenCell h.arrayDepth a

def dimensionsOf (h : Heap) : Nat → ArrayCell → Nat
  | 0, _ => 1
  | depth + 1, a =>
    match (a.items[0]? : Option Value) with
    | some (.array inner) =>
      match h.array? inner with
      | some row => 1 + h.dimensionsOf depth row
      | none => 1
    | _ => 1

def dimensions (h : Heap) (a : ArrayCell) : Nat := h.dimensionsOf h.arrayDepth a

def bounds (h : Heap) : ArrayCell → Nat → Except Fault (Option (Int64 × Int64))
  | _, 0 => .ok none
  | a, 1 => a.upper.map fun upper => some (a.lower, upper)
  | a, n + 2 =>
    match (a.items[0]? : Option Value) with
    | some (.array inner) =>
      match h.array? inner with
      | some row => h.bounds row (n + 1)
      | none => .ok none
    | _ => .ok none

/-- Equality of contents: scalars by value, arrays element by element, references by identity. -/
def equalDeep (h : Heap) : Nat → Value → Value → Bool
  | 0, _, _ => false
  | depth + 1, .array a, .array b =>
    a == b ||
      match h.array? a, h.array? b with
      | some x, some y =>
        x.lower == y.lower && x.items.size == y.items.size &&
          (x.items.toList.zip y.items.toList).all fun (u, v) => h.equalDeep depth u v
      | _, _ => false
  | _ + 1, a, b =>
    match a, b with
    | .empty, .empty | .null, .null | .nothing, .nothing => true
    | .bool a, .bool b => a == b
    | .integer a, .integer b => a == b
    | .float a, .float b => a == b
    | .string a, .string b => a == b
    | .object a, .object b => a.same b
    | .inst a _, .inst b _ => a == b
    | .callable a _, .callable b _ => a == b
    | _, _ => false

def equal (h : Heap) (a b : Value) : Bool := h.equalDeep h.arrayDepth a b

/-- The detailed text of a value, which shows its kind and the contents of arrays. -/
def describeDeep (h : Heap) : Nat → Value → Except Fault String
  | 0, _ => .ok ""
  | depth + 1, .array cell =>
    let a := (h.array? cell).getD {}
    a.upper.bind fun upper =>
      (a.items.toList.mapM (h.describeDeep depth)).map fun items =>
        "Array[" ++ toString a.lower.toInt ++ ".." ++ toString upper.toInt ++ "][" ++
          ", ".intercalate items ++ "]"
  | _ + 1, v =>
    .ok <| match v with
      | .null => "Null"
      | .nothing => "Nothing"
      | .bool b => "Bool(" ++ (if b then "true" else "false") ++ ")"
      | .integer n => "Integer(" ++ toString n.toInt ++ ")"
      | .float x => "Float(" ++ Number.plainText x ++ ")"
      | .string s => "String(" ++ Text.quoted s ++ ")"
      | .object ref => "Object(" ++ ref.typeName ++ ")"
      | .inst _ cls => "Instance(" ++ cls.name ++ ")"
      | .callable _ target => "Callable(" ++ target.name ++ ")"
      | _ => "Empty"

def describe (h : Heap) (v : Value) : Except Fault String := h.describeDeep h.arrayDepth v

end Heap
end ServerScript
