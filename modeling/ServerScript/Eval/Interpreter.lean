import ServerScript.Member.Table
import ServerScript.Function.Table

/-! The parts of the interpreter that call one another. The rules of expressions and statements
are written against this record, whose fields stand for the interpreter with a smaller bound on
the depth of its recursion. -/
namespace ServerScript

/-- The arguments of a call, each with the variable it was read from. -/
structure Arguments where
  values : List Value := []
  origins : List (Option Name) := []

/-- What a procedure leaves behind: its result and the final values of its parameters. -/
structure Invocation where
  value : Value
  params : List Value

/-- From where a member is reached: only an instance itself sees all of its members. -/
inductive Reach where
  | outside
  | inside
  deriving DecidableEq, Repr, Inhabited, BEq

def Reach.allows : Reach → Access → Bool
  | .inside, _ => true
  | .outside, access => access == .everyone

structure Interpreter where
  /-- The bound on the turns of a loop. -/
  fuel : Nat
  expr : Expr → Run Value
  block : Block → Run Flow
  /-- Runs a procedure, on an instance if it is a member. -/
  invoke : Procedure → Option InstanceRef → List Value → Run Invocation
  /-- Assigns the element of a container that an index selects. The name is for messages. -/
  store : Value → List Value → Value → Name → Run Unit

namespace Run

def resolve (name : Name) : Run Resolved := do
  let m ← get
  return m.scopes.resolve m.heap name

def lookup (name : Name) : Run (Option Value) := do
  let m ← get
  return m.scopes.lookup m.heap name

def modifyScopes (change : Scopes → Except EvalError Scopes) : Run Unit := do
  let m ← get
  match change m.scopes with
  | .ok scopes => set { m with scopes }
  | .error e => error e

def assignWith (write : Scopes → Heap → Except EvalError (Scopes × Heap × Assigned)) :
    Run Assigned := do
  let m ← get
  match write m.scopes m.heap with
  | .ok (scopes, heap, result) =>
    set { m with scopes, heap }
    return result
  | .error e => error e

def newDimensions (uppers : List Int64) : Run Value := do
  let lower := (← get).scopes.optionBase
  if Heap.exceedsCapacity lower uppers then fault .capacityOverflow
  onHeap fun h =>
    let (h, content) := Heap.withDimensions lower uppers h
    let (h, cell) := h.allocArray content
    (h, .array cell)

def deepCopy (v : Value) : Run Value := onHeap (·.deepCopy v)

def withTarget (name : Name) : Run Value := do
  match (← get).withStack with
  | target :: _ => return target
  | [] => error (.withOutsideBlock name.text)

def reachOf (i : InstanceRef) : Run Reach := do
  return if (← get).scopes.me.any (·.cell == i.cell) then .inside else .outside

/-- Tries one way of reaching a member of a built-in object and another one if the object does not
have it. -/
def orElseMember (first second : Run α) : Run α := do
  match ← attempt first with
  | .error (.error (.notSupported _)) => second
  | result => ofStop result

end Run
end ServerScript
