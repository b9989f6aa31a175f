import ServerScript.Heap.Arrays

/-! Values kept between requests. A shared value holds its arrays by content, so nothing of the
store of a request survives in it; objects and declarations cannot be shared at all. -/
namespace ServerScript

inductive SharedValue where
  | empty
  | null
  | bool (b : Bool)
  | integer (n : Int64)
  | float (x : Float)
  | string (s : String)
  | array (lower : Int64) (items : List SharedValue)
  deriving Inhabited, BEq

namespace SharedValue

/-- The shared form of a value, following nested arrays up to a depth. -/
def ofValueDeep (h : Heap) : Nat → Value → Except EvalError SharedValue
  | 0, _ => .error .notShareable
  | depth + 1, v =>
    match v with
    | .empty => .ok .empty
    | .null => .ok .null
    | .bool b => .ok (.bool b)
    | .integer n => .ok (.integer n)
    | .float x => .ok (.float x)
    | .string s => .ok (.string s)
    | .array cell =>
      let a := (h.array? cell).getD {}
      (a.items.toList.mapM (ofValueDeep h depth)).map (.array a.lower)
    | _ => .error .notShareable

def ofValue (h : Heap) (v : Value) : Except EvalError SharedValue := ofValueDeep h h.arrayDepth v

mutual

def toValue (h : Heap) : SharedValue → Heap × Value
  | .empty => (h, .empty)
  | .null => (h, .null)
  | .bool b => (h, .bool b)
  | .integer n => (h, .integer n)
  | .float x => (h, .float x)
  | .string s => (h, .string s)
  | .array lower items =>
    let (h, items) := toValues h items #[]
    let (h, cell) := h.allocArray ⟨lower, items⟩
    (h, .array cell)

def toValues (h : Heap) : List SharedValue → Array Value → Heap × Array Value
  | [], acc => (h, acc)
  | item :: rest, acc =>
    let (h, v) := toValue h item
    toValues h rest (acc.push v)

end

def toText (v : SharedValue) : String := (toValue {} v).2.toText

end SharedValue

/-- Shared values under keys that ignore the case of ASCII letters, in the order in which the keys
were added. -/
structure Contents where
  entries : List (String × SharedValue) := []
  deriving Inhabited, BEq

namespace Contents

def get? (c : Contents) (key : String) : Option SharedValue :=
  (c.entries.find? fun e => Text.asciiEq e.1 key).map (·.2)

/-- The entry of a key, or the entry at a position for a numeric key. -/
def lookup (c : Contents) (key : Value) : Except Fault (Option SharedValue) :=
  if key.isPosition then
    key.position.map fun position => position.bind fun i => (c.entries[i]?).map (·.2)
  else .ok (c.get? key.toText)

/-- Replaces the first entry of the key, which keeps its spelling, or adds the key. -/
def insert (c : Contents) (key : String) (value : SharedValue) : Contents :=
  ⟨go c.entries⟩
where
  /-- Walks to the entry of the key. -/
  go : List (String × SharedValue) → List (String × SharedValue)
    | [] => [(key, value)]
    | e :: rest => if Text.asciiEq e.1 key then (e.1, value) :: rest else e :: go rest

def remove (c : Contents) (key : String) : Contents :=
  ⟨c.entries.eraseP fun e => Text.asciiEq e.1 key⟩

def position? (c : Contents) (key : String) : Option Nat :=
  c.entries.findIdx? fun e => Text.asciiEq e.1 key

/-- Takes the entry of a key out and hands over the value that it had. -/
def take (c : Contents) (key : String) : Option SharedValue × Contents :=
  match c.position? key with
  | some i => ((c.entries[i]?).map (·.2), ⟨c.entries.eraseIdx i⟩)
  | none => (none, c)

def clear (_ : Contents) : Contents := {}

def size (c : Contents) : Nat := c.entries.length

def keys (c : Contents) : List String := c.entries.map (·.1)

end Contents
end ServerScript
