import ServerScript.Machine.Run

/-! What a script can do with a built-in object: read and write its properties, call its methods,
assign an item and visit its entries. Member names arrive in small letters, and the empty name
stands for the default member. -/
namespace ServerScript

structure Members where
  /-- Reads a property. -/
  read : String → Run Value
  /-- Assigns a property. -/
  write : String → Value → Run Unit
  /-- Calls a method. -/
  call : String → List Value → Run Value
  /-- Assigns the item that the arguments select. -/
  writeItem : List Value → Value → Run Unit
  /-- The values that a loop over the object visits, if it can be visited. -/
  entries : Run (Option (List Value)) := pure none

namespace Members

/-- The error of a member that an object of the given kind does not have. -/
def unknown (kind member : String) : Run α := Run.error (.notSupported (kind ++ "." ++ member))

def noItems (kind : String) : List Value → Value → Run Unit :=
  fun _ _ => Run.error (.notSupported kind)

def answerEmpty (act : Run Unit) : Run Value := do
  act
  return .empty

def freshView : Run Nat := Run.onHeap (·.freshView)

end Members
end ServerScript
