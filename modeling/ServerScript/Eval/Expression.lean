import ServerScript.Eval.Instance
import ServerScript.Value.Operator

/-! The rules of expressions and calls. -/
namespace ServerScript.Interpreter

def literalValue : Literal → Value
  | .empty => .empty
  | .null => .null
  | .nothing => .nothing
  | .bool b => .bool b
  | .integer n => .integer n
  | .float x => .float x
  | .string s => .string s

/-- Whether a by-reference parameter may hand its value back to a name. Names of procedures,
members and functions are only read. -/
def isVariable (name : Name) : Run Bool := do
  match ← Run.resolve name with
  | .value (.callable ..) | .member _ => return false
  | .value _ => return true
  | .missing => return !Function.isKnown (← get).natives name.text

def originOf : Expr → Run (Option Name)
  | .ident name => do return if ← isVariable name then some name else none
  | _ => return none

def arguments (ev : Interpreter) : List Expr → Run Arguments
  | [] => return {}
  | e :: rest => do
    let origin ← originOf e
    let value ← ev.expr e
    let others ← arguments ev rest
    return ⟨value :: others.values, origin :: others.origins⟩

/-- A name on its own: a variable, or a call without arguments. A function that needs arguments
reads as empty. -/
def readName (ev : Interpreter) (name : Name) : Run Value := do
  match ← Run.resolve name with
  | .value (.callable _ (.procedure decl)) => callProcedure ev decl none {}
  | .value v => return v
  | .member i => readMember ev i name .inside
  | .missing =>
    match ← Run.attempt (Function.call? name.text []) with
    | .ok result => return result.getD .empty
    | .error (.error (.invalidNumberOfArguments _)) => return .empty
    | .error stop => throw stop

/-- The running procedure, if it has the name and returns a value. -/
def recursiveTarget? (name : Name) : Run (Option Procedure) := do
  return (← get).procedure.filter fun decl => decl.name == name && decl.kind.returnsValue

def callFound (ev : Interpreter) (name : Name) (args : List Expr) : Run Value := do
  match ← Run.resolve name with
  | .value (.callable _ (.procedure decl)) => callProcedure ev decl none (← arguments ev args)
  | .value (.callable _ (.cls _)) => Run.error (.typeMismatch name.text)
  | .value target => indexValue ev target (← arguments ev args).values name
  | .member i => callMember ev i name (← arguments ev args) .inside
  | .missing =>
    match ← Function.call? name.text (← arguments ev args).values with
    | some v => return v
    | none => Run.error (.undefinedFunction name.text)

/-- `name(args)`. Inside a function its own name with arguments calls it again, while the bare
name reads the result so far. -/
def callName (ev : Interpreter) (name : Name) (args : List Expr) : Run Value := do
  if args.isEmpty then callFound ev name args
  else
    match ← recursiveTarget? name with
    | some decl =>
      let values ← arguments ev args
      callProcedure ev decl (← get).scopes.me values
    | none => callFound ev name args

/-- `target.name(args)`. A built-in object without such a method may have a property that is
indexed. -/
def callOn (ev : Interpreter) (target : Value) (name : Name) (args : List Expr) : Run Value := do
  match target with
  | .inst cell cls =>
    let args ← arguments ev args
    callMember ev ⟨cell, cls⟩ name args (← Run.reachOf ⟨cell, cls⟩)
  | .object ref =>
    let values := (← arguments ev args).values
    Run.orElseMember (ref.members.call name.text values) do
      indexValue ev (← ref.members.read name.text) values name
  | _ => Run.error (.objectRequired name.text)

/-- A property of a built-in object, or the result of a method without arguments. -/
def readObject (ref : ObjectRef) (name : Name) : Run Value :=
  Run.orElseMember (ref.members.read name.text) (ref.members.call name.text [])

def readOn (ev : Interpreter) (target : Value) (name : Name) : Run Value := do
  match target with
  | .inst cell cls => readMember ev ⟨cell, cls⟩ name (← Run.reachOf ⟨cell, cls⟩)
  | .object ref => readObject ref name
  | _ => Run.error (.objectRequired name.text)

def evalCall (ev : Interpreter) (callee : Expr) (args : List Expr) : Run Value := do
  match callee with
  | .ident name => callName ev name args
  | .member object name => callOn ev (← ev.expr object) name args
  | .withMember name => callOn ev (← Run.withTarget name) name args
  | other =>
    let target ← ev.expr other
    indexValue ev target (← arguments ev args).values .blank

def evalExpr (ev : Interpreter) : Expr → Run Value
  | .literal value => return literalValue value
  | .ident name => readName ev name
  | .me => do
    match (← get).scopes.me with
    | some i => return i.value
    | none => Run.error .meOutsideClass
  | .unary op operand => do return Operator.unary op (← ev.expr operand)
  | .binary op lhs rhs => do
    let lhs ← ev.expr lhs
    let rhs ← ev.expr rhs
    Run.ofExcept (Operator.binary (← get).scopes.compareMode op lhs rhs)
  | .call callee args => evalCall ev callee args
  | .member object name => do readOn ev (← ev.expr object) name
  | .withMember name => do readOn ev (← Run.withTarget name) name
  | .new className => instantiate ev className
  | .missing => return .empty

end ServerScript.Interpreter
