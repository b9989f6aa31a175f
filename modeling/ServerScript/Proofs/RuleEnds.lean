import ServerScript.Proofs.Answers

/-! How the parts of the rules end that touch running property reads, `With` blocks, the error mode
or the frame of a call: each from the state that it changes to the one that it leaves. -/
namespace ServerScript

def Policy.resolved (p : Policy) : Resolved → Prop
  | .value v => p.value v
  | .member i => p.inst i.cell i.cls
  | .missing => True

def Policy.assigned (p : Policy) : Assigned → Prop
  | .done => True
  | .accessor i => p.inst i.cell i.cls

structure Policy.invocation (p : Policy) (r : Invocation) : Prop where
  value : p.value r.value
  params : ∀ v ∈ r.params, p.value v

namespace Machine

def enterGetter (m : Machine) (cell : Nat) (name : Name) : Machine :=
  { m with heap := (Interpreter.enterGetter cell name m.heap).1 }

def leaveGetter (m : Machine) (cell : Nat) (name : Name) : Machine :=
  { m with heap := Interpreter.leaveGetter cell name m.heap }

def enterWith (m : Machine) (target : Value) : Machine :=
  { m with withStack := target :: m.withStack }

def leaveWith (m : Machine) : Machine := { m with withStack := m.withStack.drop 1 }

def reportError (m : Machine) (range : Range) : Machine :=
  { m with errorRange := m.errorRange <|> some range }

def resumeError (m : Machine) (e : EvalError) : Machine :=
  { m with err := .ofError e, errorRange := none }

/-- Whether a property read may start: it may not while it is running on the same instance. -/
def startsGetter (m : Machine) (cell : Nat) (name : Name) : Bool :=
  (Interpreter.enterGetter cell name m.heap).2

end Machine

namespace Run

/-- Creates a variable of a name that stands for nothing, and tells whether it did. -/
def extend (name : Name) (value : Value) : Run Bool := do
  match ← resolve name with
  | .missing =>
    modifyScopes (·.define name value)
    return true
  | _ => return false

def inside (target : Value) (act : Run α) : Run α := do
  modify fun m => { m with withStack := target :: m.withStack }
  let result ← attempt act
  modify fun m => { m with withStack := m.withStack.drop 1 }
  ofStop result

def setErrorMode (resumeNext : Bool) : Run Unit := modify fun m => { m with resumeNext, err := {} }

def setCompareMode (compareMode : CompareMode) : Run Unit :=
  modify fun m => { m with scopes := { m.scopes with compareMode } }

end Run

namespace Interpreter

variable {m : Machine}

theorem enterGetter_of_running {cell : Nat} {name : Name}
    (running : m.startsGetter cell name = false) :
    m.enterGetter cell name = m := by
  suffices same : (enterGetter cell name m.heap).1 = m.heap by rw [Machine.enterGetter, same]
  rw [Machine.startsGetter, enterGetter] at running
  rw [enterGetter]
  split
  · rfl
  · rename_i content known
    rw [known] at running
    dsimp only at running ⊢
    split
    · rfl
    · rename_i fresh
      rw [if_neg fresh] at running
      cases running

theorem exec_guardGetter_of_running {ref : InstanceRef} {name : Name}
    (running : m.startsGetter ref.cell name = false) (x : Run Value) :
    (guardGetter ref name x).exec m = (.ok .empty, m) := by
  have same := enterGetter_of_running running
  rw [Machine.startsGetter] at running
  rw [Machine.enterGetter] at same
  rw [guardGetter, Run.exec_bind_ok (Run.exec_onHeap _ m), running, same]
  rfl

theorem exec_guardGetter {ref : InstanceRef} {name : Name}
    (starts : m.startsGetter ref.cell name = true) (x : Run Value) :
    (guardGetter ref name x).exec m =
      ((x.exec (m.enterGetter ref.cell name)).1,
        (x.exec (m.enterGetter ref.cell name)).2.leaveGetter ref.cell name) := by
  rw [Machine.startsGetter] at starts
  rw [guardGetter, Run.exec_bind_ok (Run.exec_onHeap _ m), starts, if_pos rfl,
    Run.exec_bind_ok (Run.exec_attempt _ _), Run.modifyHeap, Run.exec_modify_bind, Run.exec_ofStop]
  rfl

theorem exec_modifyScopes {change : Scopes → Except EvalError Scopes} {s : Scopes}
    (done : change m.scopes = .ok s) :
    (Run.modifyScopes change).exec m = (.ok ⟨⟩, { m with scopes := s }) := by
  rw [Run.modifyScopes, Run.exec_get_bind, done]
  rfl

theorem exec_inside (target : Value) (x : Run α) :
    (Run.inside target x).exec m =
      ((x.exec (m.enterWith target)).1, (x.exec (m.enterWith target)).2.leaveWith) := by
  rw [Run.inside, Run.exec_modify_bind, Run.exec_bind_ok (Run.exec_attempt _ _),
    Run.exec_modify_bind, Run.exec_ofStop]
  rfl

theorem exec_settle (range : Range) (x : Run α) :
    (settle range x).exec m =
      match x.exec m with
      | (.ok a, m') => (.ok (some a), m')
      | (.error (.error e), m') =>
        if e.isFatal || !m'.resumeNext then (.error (.error e), m'.reportError range)
        else (.ok none, m'.resumeError e)
      | (.error s, m') => (.error s, m') := by
  rw [settle, Run.exec_bind_ok (Run.exec_attempt _ _)]
  rcases x.exec m with ⟨⟨⟨e⟩ | ⟨f⟩ | _⟩ | a, m'⟩
  · dsimp only
    rw [Run.exec_get_bind]
    split <;> rfl
  · rfl
  · rfl
  · rfl

theorem exec_execStmt_of_halted (ev : Interpreter) (stmt : Stmt) {reason : Halt}
    (asked : m.control.halt = some reason) :
    (ev.execStmt stmt).exec m = (.ok (.halt reason), m) := by
  rw [execStmt, Run.exec_get_bind, asked]
  rfl

/-- What a statement does, ahead of what becomes of its errors. -/
def work (ev : Interpreter) (stmt : Stmt) : Run Flow := do
  Run.checkDeadline
  execKind ev stmt.kind

theorem exec_execStmt (ev : Interpreter) (stmt : Stmt) (running : m.control.halt = none) :
    (ev.execStmt stmt).exec m =
      match (ev.work stmt).exec m with
      | (.ok flow, m') =>
        (.ok (if flow = .normal then m'.control.halt.elim .normal .halt else flow), m')
      | (.error (.error e), m') =>
        if e.isFatal || !m'.resumeNext then (.error (.error e), m'.reportError stmt.range)
        else (.ok (m'.control.halt.elim .normal .halt), m'.resumeError e)
      | (.error s, m') => (.error s, m') := by
  rw [execStmt, Run.exec_get_bind, running]
  change (settle stmt.range (ev.work stmt) >>= _).exec m = _
  rw [Run.exec_bind, exec_settle]
  rcases (ev.work stmt).exec m with ⟨⟨⟨e⟩ | ⟨f⟩ | _⟩ | flow, m'⟩
  · dsimp only
    cases e.isFatal || !m'.resumeNext <;> rfl
  · rfl
  · rfl
  · cases flow <;> rfl

theorem exists_work_of_error {ev : Interpreter} {stmt : Stmt} {e : EvalError} {m' : Machine}
    (ends : (execStmt ev stmt).exec m = (.error (.error e), m')) :
    m.control.halt = none ∧ ∃ m₁, (ev.work stmt).exec m = (.error (.error e), m₁) ∧
      (e.isFatal || !m₁.resumeNext) = true ∧ m' = m₁.reportError stmt.range := by
  cases running : m.control.halt with
  | some reason =>
    rw [exec_execStmt_of_halted ev stmt running] at ends
    cases ends
  | none =>
    rw [exec_execStmt ev stmt running] at ends
    split at ends
    · cases ends
    · next m₁ worked =>
      split at ends
      · next goesUp =>
        cases ends
        exact ⟨rfl, m₁, worked, goesUp, rfl⟩
      · cases ends
    · next other worked =>
      cases ends
      exact absurd rfl (other e)

theorem exec_execStmt_congr {ev ev' : Interpreter} {stmt : Stmt}
    (same : (ev'.work stmt).exec m = (ev.work stmt).exec m) :
    (execStmt ev' stmt).exec m = (execStmt ev stmt).exec m := by
  cases running : m.control.halt with
  | some reason =>
    rw [exec_execStmt_of_halted ev' stmt running, exec_execStmt_of_halted ev stmt running]
  | none => rw [exec_execStmt ev' stmt running, exec_execStmt ev stmt running, same]

theorem exec_invokeProcedure (ev : Interpreter) (decl : Procedure) (this : Option InstanceRef)
    (values : List Value) :
    (invokeProcedure ev decl this values).exec m =
      if m.callLimit ≤ m.callDepth then (.error (.error (.recursion m.callLimit)), m)
      else
        (((runBody ev decl values).exec (enter decl this m)).1,
          leave (.ofMachine m) ((runBody ev decl values).exec (enter decl this m)).2) := by
  rw [invokeProcedure, Run.exec_get_bind, Run.exec_get_bind]
  split
  · rfl
  · rw [Run.exec_get_bind, Run.exec_modify_bind, Run.exec_bind_ok (Run.exec_attempt _ _),
      Run.exec_modify_bind, Run.exec_ofStop]

end Interpreter

end ServerScript
