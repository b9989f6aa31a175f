import ServerScript.Code.Expr
import ServerScript.Code.Location

/-! Statements, procedures, classes and documents. -/
namespace ServerScript

inductive LoopTest where
  | whileTrue
  | untilTrue
  deriving DecidableEq, Repr, Inhabited, BEq

inductive TestPosition where
  | pre
  | post
  deriving DecidableEq, Repr, Inhabited, BEq

structure LoopCondition where
  test : LoopTest
  position : TestPosition
  expr : Expr
  deriving BEq, Inhabited

inductive CaseTest where
  | value (expr : Expr)
  /-- `Case low To high`, both ends included. -/
  | range (low high : Expr)
  /-- `Case Is op expr`, with the selected value on the left. -/
  | is (op : BinaryOp) (expr : Expr)
  deriving BEq, Inhabited

inductive ExitKind where
  | forLoop | doLoop | whileLoop | select | sub | function | property
  deriving DecidableEq, Repr, Inhabited, BEq

inductive ErrorMode where
  | resumeNext
  | gotoZero
  deriving DecidableEq, Repr, Inhabited, BEq

/-- A declared variable: no bounds for a scalar, an empty list for a dynamic array. -/
structure VarDecl where
  name : Name
  dims : Option (List Expr) := none
  deriving BEq, Inhabited

structure ConstDecl where
  name : Name
  value : Expr
  deriving BEq, Inhabited

/-- Who may reach a member: everyone, or only the instance itself. -/
inductive Access where
  | everyone
  | instanceOnly
  deriving DecidableEq, Repr, Inhabited, BEq

inductive ProcedureKind where
  | sub | function | propertyGet | propertyLet | propertySet
  deriving DecidableEq, Repr, Inhabited, BEq

/-- Whether a procedure reads its result from a variable of its own name. -/
def ProcedureKind.returnsValue : ProcedureKind → Bool
  | .function | .propertyGet => true
  | _ => false

structure Param where
  name : Name
  byVal : Bool := false
  deriving DecidableEq, Repr, Inhabited, BEq

mutual

structure Stmt where
  kind : StmtKind
  range : Range

inductive StmtKind where
  | call (expr : Expr)
  | assign (target value : Expr) (set : Bool)
  | dim (decls : List VarDecl)
  | redim (preserve : Bool) (decls : List VarDecl)
  | constants (decls : List ConstDecl)
  | erase (names : List Name)
  | choose (branches : List Branch) (otherwise : Option (List Stmt))
  | forRange (counter : Name) (start stop : Expr) (step : Option Expr) (body : List Stmt)
  | forEach (element : Name) (group : Expr) (body : List Stmt)
  | doLoop (condition : Option LoopCondition) (body : List Stmt)
  | whileLoop (condition : Expr) (body : List Stmt)
  | select (subject : Expr) (cases : List CaseClause) (otherwise : Option (List Stmt))
  | withBlock (object : Expr) (body : List Stmt)
  | exit (kind : ExitKind)
  | procedure (decl : Procedure)
  | classDef (decl : ClassDecl)
  | onError (mode : ErrorMode)
  | optionExplicit
  | optionCompare (mode : CompareMode)

structure Branch where
  condition : Expr
  body : List Stmt

structure CaseClause where
  tests : List CaseTest
  body : List Stmt

structure Procedure where
  name : Name
  kind : ProcedureKind
  access : Access
  isDefault : Bool
  params : List Param
  body : List Stmt

structure ClassDecl where
  /-- The name as written. -/
  name : String
  members : List ClassMember

inductive ClassMember where
  | field (access : Access) (decl : VarDecl)
  | procedure (decl : Procedure)

end

deriving instance BEq for Stmt, StmtKind, Branch, CaseClause, Procedure, ClassDecl, ClassMember

abbrev Block := List Stmt

instance : Inhabited Procedure := ⟨⟨default, default, default, false, [], []⟩⟩

instance : Inhabited ClassDecl := ⟨⟨"", []⟩⟩

def ClassDecl.ident (decl : ClassDecl) : Name := Name.ofText decl.name

inductive Section where
  /-- Text that is written as it stands. -/
  | markup (text : String)
  | code (program : Block)
  /-- An expression whose value is written. -/
  | output (expr : Expr) (range : Range)
  deriving BEq

/-- A page: literal text interleaved with code, and the source it was made from. -/
structure Document where
  source : Option String := none
  sections : List Section := []
  deriving BEq

namespace Document

def ofProgram (program : Block) : Document := ⟨none, [.code program]⟩

def statements (document : Document) : Block :=
  document.sections.flatMap fun
    | .code program => program
    | _ => []

end Document
end ServerScript
