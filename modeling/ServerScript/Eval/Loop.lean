import ServerScript.Eval.Assignment

/-! The rules of loops. Every turn looks at the clock. -/
namespace ServerScript.Interpreter

/-- What a loop does after its body: go on, end normally at its own exit, or pass on anything
else. -/
inductive Turn where
  | again
  | done
  | leave (flow : Flow)

def Turn.ofFlow (own : ExitKind) : Flow → Turn
  | .normal => .again
  | .exit kind => if kind = own then .done else .leave (.exit kind)
  | .halt reason => .leave (.halt reason)

def passed (step stop current : Float) : Bool :=
  (0.0 < step && stop < current) || (step < 0.0 && current < stop)

/-- The turns of a counting loop. The counter is read back after the body, so a body that changes
it changes the loop. -/
def countTurns (ev : Interpreter) (counter : Name) (integral : Bool) (step stop : Float)
    (body : Block) : Nat → Float → Run Flow
  | 0, _ => Run.exhausted
  | fuel + 1, current => do
    Run.checkDeadline
    let value := if integral then Value.integer (Number.saturate current) else .float current
    assignName ev counter value false
    if passed step stop current then return .normal
    match Turn.ofFlow .forLoop (← ev.block body) with
    | .again =>
      let reached := ((← Run.lookup counter).getD .empty).toFloat
      countTurns ev counter integral step stop body fuel (reached + step)
    | .done => return .normal
    | .leave flow => return flow

def execFor (ev : Interpreter) (counter : Name) (start stop : Expr) (step : Option Expr)
    (body : Block) : Run Flow := do
  let start ← ev.expr start
  let stop := (← ev.expr stop).toFloat
  let step ← match step with
    | some step => ev.expr step
    | none => pure (.integer 1)
  if step.toFloat == 0.0 then return .normal
  countTurns ev counter (start.toNumeric.isInt && step.toNumeric.isInt) step.toFloat stop body
    ev.fuel start.toFloat

def visitTurns (ev : Interpreter) (element : Name) (body : Block) : List Value → Run Flow
  | [] => return .normal
  | item :: rest => do
    Run.checkDeadline
    assignName ev element item false
    match Turn.ofFlow .forLoop (← ev.block body) with
    | .again => visitTurns ev element body rest
    | .done => return .normal
    | .leave flow => return flow

def visited (group : Value) : Run (List Value) := do
  match group with
  | .array cell =>
    let h := (← get).heap
    return h.flatten ((h.array? cell).getD {})
  | .object ref =>
    match ← ref.members.entries with
    | some values => return values
    | none => Run.error (.notSupported ("For Each over " ++ ref.typeName))
  | other => Run.error (.typeMismatch ("For Each over " ++ other.typeName))

def execForEach (ev : Interpreter) (element : Name) (group : Expr) (body : Block) : Run Flow := do
  visitTurns ev element body (← visited (← ev.expr group))

/-- Whether a loop goes on at a place where its condition may stand. -/
def goesOn (ev : Interpreter) (condition : Option LoopCondition) (position : TestPosition) :
    Run Bool := do
  match condition with
  | none => return true
  | some condition =>
    if condition.position = position then
      let holds := (← ev.expr condition.expr).isTruthy
      match condition.test with
      | .whileTrue => return holds
      | .untilTrue => return !holds
    else return true

def doTurns (ev : Interpreter) (condition : Option LoopCondition) (body : Block) : Nat → Run Flow
  | 0 => Run.exhausted
  | fuel + 1 => do
    Run.checkDeadline
    if ← goesOn ev condition .pre then
      match Turn.ofFlow .doLoop (← ev.block body) with
      | .again =>
        if ← goesOn ev condition .post then doTurns ev condition body fuel
        else return .normal
      | .done => return .normal
      | .leave flow => return flow
    else return .normal

def whileTurns (ev : Interpreter) (condition : Expr) (body : Block) : Nat → Run Flow
  | 0 => Run.exhausted
  | fuel + 1 => do
    Run.checkDeadline
    if (← ev.expr condition).isTruthy then
      match Turn.ofFlow .whileLoop (← ev.block body) with
      | .again => whileTurns ev condition body fuel
      | .done => return .normal
      | .leave flow => return flow
    else return .normal

end ServerScript.Interpreter
