import ServerScript.Machine.Scopes
import ServerScript.Machine.Control
import ServerScript.Calendar.Moment
import ServerScript.Host.Application
import ServerScript.Host.Request
import ServerScript.Host.Response
import ServerScript.Host.Session

/-! The state of a running script and computations on it. A computation gives back the state
however it ends: with a result, with an error of the script, with a fault, or because the bound
on its steps was reached. -/
namespace ServerScript

inductive Stop where
  | error (e : EvalError)
  | fault (f : Fault)
  /-- The bound on the number of steps was reached. -/
  | exhausted
  deriving DecidableEq, Repr, Inhabited, BEq

structure ErrRecord where
  number : Int64 := 0
  description : String := ""
  source : String := ""
  deriving DecidableEq, Repr, Inhabited, BEq

def ErrRecord.ofError (e : EvalError) : ErrRecord := ⟨e.number, e.message, e.sourceName⟩

/-- What the built-in objects of a request share with the world outside. -/
structure Site where
  response : Response := {}
  request : RequestView := RequestView.ofData {}
  session : Option Session := none
  application : ApplicationStore := {}
  /-- The directory of the site. -/
  root : String := "."
  /-- The virtual path of the running script. -/
  script : String := "/"
  requestId : Nat := 1

structure Native where
  name : String
  run : List Value → Except Stop Value

structure ClockReading where
  now : Calendar.Moment := .midnight (Calendar.dayNumber 2000 1 1)
  /-- Hundredths of the current second. -/
  hundredths : Nat := 0
  deriving Repr, Inhabited

structure Machine where
  scopes : Scopes := {}
  heap : Heap := {}
  err : ErrRecord := {}
  /-- The targets of the enclosing `With` blocks, innermost first. -/
  withStack : List Value := []
  resumeNext : Bool := false
  procedure : Option Procedure := none
  /-- The number of procedure calls that are running. -/
  callDepth : Nat := 0
  /-- Where the error that is on its way up was raised. -/
  errorRange : Option Range := none
  callLimit : Nat := 32
  control : Control := {}
  site : Site := {}
  natives : List Native := []
  clock : ClockReading := {}

abbrev Run := ExceptT Stop (StateM Machine)

namespace Run

/-- Runs a computation and gives its end together with the state after it. -/
def exec (act : Run α) (m : Machine) : Except Stop α × Machine := act m

def error (e : EvalError) : Run α := throw (.error e)

def fault (f : Fault) : Run α := throw (.fault f)

def exhausted : Run α := throw .exhausted

def ofExcept : Except EvalError α → Run α
  | .ok a => pure a
  | .error e => error e

def ofFault : Except Fault α → Run α
  | .ok a => pure a
  | .error f => fault f

def ofStop : Except Stop α → Run α
  | .ok a => pure a
  | .error s => throw s

def attempt (act : Run α) : Run (Except Stop α) := fun m =>
  let (result, m) := act m
  (.ok result, m)

def onHeap (f : Heap → Heap × α) : Run α := fun m =>
  let (heap, a) := f m.heap
  (.ok a, { m with heap })

def modifyHeap (f : Heap → Heap) : Run Unit := modify fun m => { m with heap := f m.heap }

def modifySite (f : Site → Site) : Run Unit := modify fun m => { m with site := f m.site }

def modifyControl (f : Control → Control) : Run Unit :=
  modify fun m => { m with control := f m.control }

def newArray (items : List Value) : Run Value := do
  let cell ← onHeap (·.allocArray ⟨0, items.toArray⟩)
  return .array cell

/-- Looks at the clock and ends a request that has used up its time. -/
def checkDeadline : Run Unit := do
  modifyControl Control.tick
  if (← get).control.isExpired then error .timeout

/-- The members of the application store wait at most until the deadline, which has to exist. -/
def onApplication (change : ApplicationStore → Except EvalError ApplicationStore) : Run Unit := do
  let m ← get
  if !m.control.deadlineExists then fault .instantOutOfRange
  let application ← ofExcept (change m.site.application)
  modifySite fun site => { site with application }

end Run
end ServerScript
