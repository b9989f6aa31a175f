import ServerScript.Eval.Assignment
import ServerScript.Code.Declarations

/-! The rules of declarations: variables, constants, arrays, procedures and classes. -/
namespace ServerScript.Interpreter

def execDim (ev : Interpreter) (decls : List VarDecl) : Run Unit :=
  decls.forM fun decl => do
    let value ← declaredValue ev decl.dims
    Run.modifyScopes (·.declare decl.name value)

def execConst (ev : Interpreter) (decls : List ConstDecl) : Run Unit :=
  decls.forM fun decl => do
    let value ← ev.expr decl.value
    Run.modifyScopes (·.setConstant decl.name value)

def execErase (names : List Name) : Run Unit :=
  names.forM fun name => do
    match ← Run.lookup name with
    | some (.array cell) =>
      Run.modifyHeap (·.modifyArray cell (·.erase))
    | some other => Run.error (.typeMismatch ("Erase of " ++ other.typeName))
    | none => Run.error (.undefinedVariable name.text)

def replaceArray (ev : Interpreter) (name : Name) (uppers : List Int64) : Run Unit := do
  let value ← Run.newDimensions uppers
  match ← Run.resolve name with
  | .missing => Run.modifyScopes (·.define name value)
  | _ => assignName ev name value false

/-- Resizes an array in place and keeps the elements that still have a position. -/
def resizeArray (cell : Nat) (uppers : List Int64) : Run Unit := do
  let h := (← get).heap
  let (h, content) ←
    Run.ofFault (Heap.resizePreserve h.arrayDepth h ((h.array? cell).getD {}) uppers)
  modify fun m => { m with heap := h.setArray cell content }

def execRedim (ev : Interpreter) (preserve : Bool) (decls : List VarDecl) : Run Unit :=
  decls.forM fun decl => do
    let uppers ← dimensions ev (decl.dims.getD [])
    if preserve then
      match ← Run.lookup decl.name with
      | some (.array cell) => resizeArray cell uppers
      | _ => replaceArray ev decl.name uppers
    else replaceArray ev decl.name uppers

def defineCallable (name : Name) (target : Callable) : Run Unit := do
  let id ← Run.onHeap (·.freshView)
  Run.modifyScopes (·.define name (.callable id target))

def defineProcedure (decl : Procedure) : Run Unit := defineCallable decl.name (.procedure decl)

def defineClass (decl : ClassDecl) : Run Unit := do
  let cls ← Run.ofExcept (ClassDef.ofDecl decl)
  defineCallable decl.ident (.cls cls)

/-- Defines the procedures and classes of a block ahead of running it. -/
def hoist (block : Block) : Run Unit :=
  block.forM fun stmt =>
    match stmt.kind with
    | .procedure decl => defineProcedure decl
    | .classDef decl => defineClass decl
    | _ => return

/-- Declares the scalars of a body ahead of running it, so that a use before the declaration is a
use of the local variable. -/
def hoistScalars (block : Block) : Run Unit :=
  (blockScalars block).forM fun name => Run.modifyScopes (·.declare name .empty)

end ServerScript.Interpreter
