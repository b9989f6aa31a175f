import ServerScript.Eval.Declaration

/-! Running the body of a procedure in a frame of its own. -/
namespace ServerScript.Interpreter

/-- Binds parameters to values, empty ones where values are missing. Parameters by value get
copies of arrays. -/
def bindParams : List Param → List Value → Run Unit
  | [], _ => return
  | param :: params, values => do
    let value := values.headD .empty
    let value ← if param.byVal then Run.deepCopy value else pure value
    Run.modifyScopes (·.define param.name value)
    bindParams params values.tail

def localValue (m : Machine) (name : Name) : Value := (m.scopes.local? name).getD .empty

/-- Runs a body in the current frame. Exits and stops both end it; a stop is noticed again by the
next statement of the caller. -/
def runBody (ev : Interpreter) (decl : Procedure) (values : List Value) : Run Invocation := do
  bindParams decl.params values
  if decl.kind.returnsValue then Run.modifyScopes (·.define decl.name .empty)
  hoistScalars decl.body
  discard (ev.block decl.body)
  let m ← get
  return {
    value := if decl.kind.returnsValue then localValue m decl.name else .empty
    params := decl.params.map fun param => localValue m param.name }

/-- What a call sets aside and restores afterwards. -/
structure Caller where
  me : Option InstanceRef
  procedure : Option Procedure
  resumeNext : Bool
  withStack : List Value

def Caller.ofMachine (m : Machine) : Caller :=
  ⟨m.scopes.me, m.procedure, m.resumeNext, m.withStack⟩

def enter (decl : Procedure) (this : Option InstanceRef) (m : Machine) : Machine :=
  { m with
    callDepth := m.callDepth + 1
    scopes := { m.scopes.push with me := this }
    procedure := some decl
    resumeNext := false
    withStack := [] }

def leave (caller : Caller) (m : Machine) : Machine :=
  { m with
    callDepth := m.callDepth - 1
    scopes := { m.scopes.pop with me := caller.me }
    procedure := caller.procedure
    resumeNext := caller.resumeNext
    withStack := caller.withStack }

/-- Runs a procedure. Whatever its end, the caller finds its own frame again. -/
def invokeProcedure (ev : Interpreter) (decl : Procedure) (this : Option InstanceRef)
    (values : List Value) : Run Invocation := do
  let limit := (← get).callLimit
  if limit ≤ (← get).callDepth then Run.error (.recursion limit)
  let caller := Caller.ofMachine (← get)
  modify (enter decl this)
  let result ← Run.attempt (runBody ev decl values)
  modify (leave caller)
  Run.ofStop result

end ServerScript.Interpreter
