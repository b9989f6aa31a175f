import ServerScript.Code.Stmt

/-! The names that a body declares as scalars, at any depth of nesting but outside of nested
procedures and classes. -/
namespace ServerScript

def scalarNames (decls : List VarDecl) : List Name :=
  (decls.filter fun decl => decl.dims.isNone).map (·.name)

mutual

def StmtKind.scalars : StmtKind → List Name
  | .dim decls => scalarNames decls
  | .choose branches otherwise => branchScalars branches ++ otherwiseScalars otherwise
  | .select _ cases otherwise => caseScalars cases ++ otherwiseScalars otherwise
  | .forRange _ _ _ _ body => blockScalars body
  | .forEach _ _ body => blockScalars body
  | .doLoop _ body => blockScalars body
  | .whileLoop _ body => blockScalars body
  | .withBlock _ body => blockScalars body
  | _ => []

/-- The scalars of a block in the order in which they are declared. -/
def blockScalars : List Stmt → List Name
  | [] => []
  | ⟨kind, _⟩ :: rest => kind.scalars ++ blockScalars rest

def branchScalars : List Branch → List Name
  | [] => []
  | ⟨_, body⟩ :: rest => blockScalars body ++ branchScalars rest

def caseScalars : List CaseClause → List Name
  | [] => []
  | ⟨_, body⟩ :: rest => blockScalars body ++ caseScalars rest

def otherwiseScalars : Option (List Stmt) → List Name
  | none => []
  | some body => blockScalars body

end

end ServerScript
