import ServerScript.Name

/-! Expressions of the script language. Calls and element reads have one form, since the language
does not tell them apart. -/
namespace ServerScript

inductive Literal where
  | empty
  | null
  | nothing
  | bool (b : Bool)
  | integer (n : Int64)
  | float (x : Float)
  | string (s : String)
  deriving BEq, Inhabited

inductive UnaryOp where
  | neg
  | not
  deriving DecidableEq, Repr, Inhabited, BEq

inductive BinaryOp where
  | add | sub | mul | div | intDiv | mod | pow | concat
  | eq | ne | lt | le | gt | ge
  | and | or | xor | eqv | imp
  | is
  deriving DecidableEq, Repr, Inhabited, BEq

inductive Expr where
  | literal (value : Literal)
  | ident (name : Name)
  | me
  | unary (op : UnaryOp) (operand : Expr)
  | binary (op : BinaryOp) (lhs rhs : Expr)
  /-- `callee(args)`. -/
  | call (callee : Expr) (args : List Expr)
  | member (object : Expr) (name : Name)
  /-- `.name` inside a `With` block. -/
  | withMember (name : Name)
  | new (className : Name)
  /-- An argument that was left out. -/
  | missing
  deriving BEq, Inhabited

def BinaryOp.symbol : BinaryOp → String
  | .add => "+" | .sub => "-" | .mul => "*" | .div => "/" | .intDiv => "\\" | .mod => "Mod"
  | .pow => "^" | .concat => "&" | .eq => "=" | .ne => "<>" | .lt => "<" | .le => "<="
  | .gt => ">" | .ge => ">=" | .and => "And" | .or => "Or" | .xor => "Xor" | .eqv => "Eqv"
  | .imp => "Imp" | .is => "Is"

/-- All binary operators, arithmetic before comparison before logic. -/
def BinaryOp.all : List BinaryOp :=
  [.add, .sub, .mul, .div, .intDiv, .mod, .pow, .concat, .eq, .ne, .lt, .le, .gt, .ge, .and, .or,
    .xor, .eqv, .imp, .is]

inductive CompareMode where
  | binary
  | text
  deriving DecidableEq, Repr, Inhabited, BEq

def Expr.targetName : Expr → String
  | .ident name => name.text
  | .member _ name => name.text
  | .withMember name => name.text
  | .call callee _ => callee.targetName
  | _ => "Set"

end ServerScript
