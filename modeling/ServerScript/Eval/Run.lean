import ServerScript.Eval.Procedure
import ServerScript.Eval.Statement

/-! The interpreter for a given bound on its recursion, and what is run from outside: programs,
output expressions and procedures by name. -/
namespace ServerScript

mutual

def Expr.evalWithin : Nat → Expr → Run Value
  | 0, _ => Run.exhausted
  | n + 1, e =>
    Interpreter.evalExpr
      ⟨n, Expr.evalWithin n, Block.runWithin n, Procedure.invokeWithin n, Value.storeWithin n⟩ e

def Block.runWithin : Nat → List Stmt → Run Flow
  | 0, _ => Run.exhausted
  | n + 1, block =>
    Interpreter.execBlock
      ⟨n, Expr.evalWithin n, Block.runWithin n, Procedure.invokeWithin n, Value.storeWithin n⟩ block

def Procedure.invokeWithin : Nat → Procedure → Option InstanceRef → List Value → Run Invocation
  | 0, _, _, _ => Run.exhausted
  | n + 1, decl, this, values =>
    Interpreter.invokeProcedure
      ⟨n, Expr.evalWithin n, Block.runWithin n, Procedure.invokeWithin n, Value.storeWithin n⟩
      decl this values

def Value.storeWithin : Nat → Value → List Value → Value → Name → Run Unit
  | 0, _, _, _, _ => Run.exhausted
  | n + 1, container, index, value, name =>
    Interpreter.storeElement
      ⟨n, Expr.evalWithin n, Block.runWithin n, Procedure.invokeWithin n, Value.storeWithin n⟩
      container index value name

end

def Interpreter.within (n : Nat) : Interpreter :=
  ⟨n, Expr.evalWithin n, Block.runWithin n, Procedure.invokeWithin n, Value.storeWithin n⟩

/-- A bound that no request reaches: its time is used up long before. -/
def Interpreter.bound : Nat := 0x4000000000000000

namespace Script

def interpreter : Interpreter := Interpreter.within Interpreter.bound

def eval (e : Expr) : Run Value := interpreter.expr e

def exec (block : Block) : Run Flow := interpreter.block block

def run (program : Block) : Run Flow := do
  Interpreter.hoist program
  exec program

/-- Evaluates an expression whose value is to be written; nothing if its error was resumed. -/
def output (e : Expr) (range : Range) : Run (Option Value) :=
  Interpreter.settle range do
    Run.checkDeadline
    eval e

def call? (name : String) (args : List Value) : Run (Option Value) := do
  match ← Run.lookup (Name.ofText name) with
  | some (.callable _ (.procedure decl)) =>
    return some (← interpreter.callProcedure decl none ⟨args, []⟩)
  | _ => return none

end Script
end ServerScript
