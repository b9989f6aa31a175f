import ServerScript.Eval.Declaration
import ServerScript.Eval.Loop

/-! The rules of statements and blocks. -/
namespace ServerScript.Interpreter

/-- Applies the error mode to one statement: an error is recorded and resumed, or it goes up with
the place where it was raised first. -/
def settle (range : Range) (act : Run α) : Run (Option α) := do
  match ← Run.attempt act with
  | .ok a => return some a
  | .error (.error e) =>
    if e.isFatal || !(← get).resumeNext then
      modify fun m => { m with errorRange := m.errorRange <|> some range }
      Run.error e
    else
      modify fun m => { m with err := .ofError e, errorRange := none }
      return none
  | .error stop => throw stop

def execCall (ev : Interpreter) (e : Expr) : Run Unit := do
  match e with
  | .call callee args => discard (evalCall ev callee args)
  | .ident name => discard (callName ev name [])
  | .member object name => discard (callOn ev (← ev.expr object) name [])
  | .withMember name => discard (callOn ev (← Run.withTarget name) name [])
  | other => discard (ev.expr other)

def execBranches (ev : Interpreter) (otherwise : Option Block) : List Branch → Run Flow
  | [] =>
    match otherwise with
    | some body => ev.block body
    | none => return .normal
  | branch :: rest => do
    if (← ev.expr branch.condition).isTruthy then ev.block branch.body
    else execBranches ev otherwise rest

def caseHolds (ev : Interpreter) (mode : CompareMode) (subject : Value) : CaseTest → Run Bool
  | .value e => do return Value.looseEq mode subject (← ev.expr e)
  | .range low high => do
    let low ← ev.expr low
    let high ← ev.expr high
    return !Value.less mode subject low && !Value.less mode high subject
  | .is op e => do
    let value ← ev.expr e
    return (← Run.ofExcept (Operator.binary mode op subject value)).isTruthy

/-- Whether one of the tests of a case holds; those after it are not evaluated. -/
def anyHolds (ev : Interpreter) (mode : CompareMode) (subject : Value) : List CaseTest → Run Bool
  | [] => return false
  | test :: rest => do
    if ← caseHolds ev mode subject test then return true else anyHolds ev mode subject rest

def selectBody (ev : Interpreter) (otherwise : Option Block) (subject : Value) :
    List CaseClause → Run (Option Block)
  | [] => return otherwise
  | clause :: rest => do
    let mode := (← get).scopes.compareMode
    if ← anyHolds ev mode subject clause.tests then return some clause.body
    else selectBody ev otherwise subject rest

def execSelect (ev : Interpreter) (subject : Expr) (cases : List CaseClause)
    (otherwise : Option Block) : Run Flow := do
  let subject ← ev.expr subject
  match ← selectBody ev otherwise subject cases with
  | some body =>
    match ← ev.block body with
    | .exit .select => return .normal
    | flow => return flow
  | none => return .normal

def execWith (ev : Interpreter) (object : Expr) (body : Block) : Run Flow := do
  let target ← ev.expr object
  modify fun m => { m with withStack := target :: m.withStack }
  let result ← Run.attempt (ev.block body)
  modify fun m => { m with withStack := m.withStack.drop 1 }
  Run.ofStop result

def normally (act : Run Unit) : Run Flow := do
  act
  return .normal

def execKind (ev : Interpreter) : StmtKind → Run Flow
  | .call e => normally (execCall ev e)
  | .assign target value set => normally (execAssign ev target value set)
  | .dim decls => normally (execDim ev decls)
  | .redim preserve decls => normally (execRedim ev preserve decls)
  | .constants decls => normally (execConst ev decls)
  | .erase names => normally (execErase names)
  | .choose branches otherwise => execBranches ev otherwise branches
  | .forRange counter start stop step body => execFor ev counter start stop step body
  | .forEach element group body => execForEach ev element group body
  | .doLoop condition body => doTurns ev condition body ev.fuel
  | .whileLoop condition body => whileTurns ev condition body ev.fuel
  | .select subject cases otherwise => execSelect ev subject cases otherwise
  | .withBlock object body => execWith ev object body
  | .exit kind => return .exit kind
  | .procedure decl => normally (defineProcedure decl)
  | .classDef decl => normally (defineClass decl)
  | .onError mode => normally (modify fun m => { m with resumeNext := mode == .resumeNext, err := {} })
  | .optionExplicit => return .normal
  | .optionCompare mode => normally (modify fun m =>
      { m with scopes := { m.scopes with compareMode := mode } })

/-- Runs a statement unless the request was told to stop. A stop that the statement asked for
takes effect after it. -/
def execStmt (ev : Interpreter) (stmt : Stmt) : Run Flow := do
  match (← get).control.halt with
  | some reason => return .halt reason
  | none =>
    let result ← settle stmt.range do
      Run.checkDeadline
      execKind ev stmt.kind
    match result.getD .normal with
    | .normal => return (← get).control.halt.elim .normal .halt
    | flow => return flow

/-- Runs statements up to the first one that does not end normally. -/
def execBlock (ev : Interpreter) : Block → Run Flow
  | [] => return .normal
  | stmt :: rest => do
    match ← execStmt ev stmt with
    | .normal => execBlock ev rest
    | flow => return flow

end ServerScript.Interpreter
