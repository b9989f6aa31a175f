import ServerScript.Object.Dictionary

/-! The store behind references: arrays, instances and dictionaries, each in a numbered cell.
Cells are only ever added, so a reference stays valid for the rest of a request. -/
namespace ServerScript

/-- An array: its elements are numbered from `lower` on. An element may refer to another array,
which is how arrays of several dimensions are built. -/
structure ArrayCell where
  lower : Int64 := 0
  items : Array Value := #[]

/-- The state of an instance: its fields and the property reads that are running on it. -/
structure InstanceCell where
  fields : List (Name × Value) := []
  running : List Name := []

structure Heap where
  arrays : Array ArrayCell := #[]
  instances : Array InstanceCell := #[]
  dictionaries : Array Dictionary := #[]
  /-- The number of the next view or declaration that is handed out. -/
  nextView : Nat := 1

namespace Heap

def array? (h : Heap) (cell : Nat) : Option ArrayCell := h.arrays[cell]?

def allocArray (h : Heap) (content : ArrayCell) : Heap × Nat :=
  let cell := h.arrays.size
  ({ h with arrays := h.arrays.push content }, cell)

def setArray (h : Heap) (cell : Nat) (content : ArrayCell) : Heap :=
  { h with arrays := h.arrays.setIfInBounds cell content }

def modifyArray (h : Heap) (cell : Nat) (change : ArrayCell → ArrayCell) : Heap :=
  { h with arrays := h.arrays.modify cell change }

def instance? (h : Heap) (cell : Nat) : Option InstanceCell := h.instances[cell]?

def allocInstance (h : Heap) (content : InstanceCell) : Heap × Nat :=
  let cell := h.instances.size
  ({ h with instances := h.instances.push content }, cell)

def modifyInstance (h : Heap) (cell : Nat) (change : InstanceCell → InstanceCell) : Heap :=
  { h with instances := h.instances.modify cell change }

def field? (h : Heap) (cell : Nat) (name : Name) : Option Value :=
  (h.instance? cell).bind fun content => lookupName name content.fields

def setField (h : Heap) (cell : Nat) (name : Name) (value : Value) : Heap :=
  if (h.field? cell name).isSome then
    h.modifyInstance cell fun content =>
      { content with fields := putName name value content.fields }
  else h

def dictionary (h : Heap) (cell : Nat) : Dictionary := (h.dictionaries[cell]?).getD {}

def allocDictionary (h : Heap) : Heap × Nat :=
  let cell := h.dictionaries.size
  ({ h with dictionaries := h.dictionaries.push {} }, cell)

def modifyDictionary (h : Heap) (cell : Nat) (change : Dictionary → Dictionary) : Heap :=
  { h with dictionaries := h.dictionaries.modify cell change }

def freshView (h : Heap) : Heap × Nat := ({ h with nextView := h.nextView + 1 }, h.nextView)

/-- More than the number of arrays on any path through nested arrays. -/
def arrayDepth (h : Heap) : Nat := h.arrays.size + 1

end Heap
end ServerScript
