import ServerScript.Code.Stmt
import ServerScript.Json.Printer

/-! Documents as JSON. Every member of a record is written, in the order in which it is declared,
and a member without a value is `null`. -/
namespace ServerScript.Code.Printer

def tag (name : String) (content : Json) : Json := .object [(name, content)]

def optional (print : α → Json) : Option α → Json
  | none => .null
  | some value => print value

def name (n : Name) : Json := .string n.text

def position (p : Position) : Json := .object [("line", .nat p.line), ("column", .nat p.column)]

def range (r : Range) : Json := .object [("start", position r.start), ("end", position r.stop)]

def literal : Literal → Json
  | .empty => .string "Empty"
  | .null => .string "Null"
  | .nothing => .string "Nothing"
  | .bool b => tag "Bool" (.bool b)
  | .integer n => tag "Integer" (.int n.toInt)
  | .float x => tag "Float" (.number (Json.floatToken x))
  | .string s => tag "String" (.string s)

def unaryOp : UnaryOp → String
  | .neg => "Neg"
  | .not => "Not"

def binaryOp : BinaryOp → String
  | .add => "Add" | .sub => "Sub" | .mul => "Mul" | .div => "Div" | .intDiv => "IntDiv"
  | .mod => "Mod" | .pow => "Pow" | .concat => "Concat" | .eq => "Eq" | .ne => "Ne" | .lt => "Lt"
  | .le => "Le" | .gt => "Gt" | .ge => "Ge" | .and => "And" | .or => "Or" | .xor => "Xor"
  | .eqv => "Eqv" | .imp => "Imp" | .is => "Is"

def loopTest : LoopTest → String
  | .whileTrue => "While"
  | .untilTrue => "Until"

def testPosition : TestPosition → String
  | .pre => "Pre"
  | .post => "Post"

def exitKind : ExitKind → String
  | .forLoop => "For" | .doLoop => "Do" | .whileLoop => "While" | .select => "Select"
  | .sub => "Sub" | .function => "Function" | .property => "Property"

def errorMode : ErrorMode → String
  | .resumeNext => "ResumeNext"
  | .gotoZero => "GotoZero"

def compareMode : CompareMode → String
  | .binary => "Binary"
  | .text => "Text"

def access : Access → String
  | .everyone => "Public"
  | .instanceOnly => "Private"

def procedureKind : ProcedureKind → String
  | .sub => "Sub" | .function => "Function" | .propertyGet => "PropertyGet"
  | .propertyLet => "PropertyLet" | .propertySet => "PropertySet"

mutual

def expr : Expr → Json
  | .literal value => tag "Literal" (literal value)
  | .ident n => tag "Ident" (name n)
  | .me => .string "Me"
  | .unary op operand => tag "Unary" (.array [.string (unaryOp op), expr operand])
  | .binary op lhs rhs => tag "Binary" (.array [.string (binaryOp op), expr lhs, expr rhs])
  | .call callee args => tag "Call" (.array [expr callee, .array (exprs args)])
  | .member object n => tag "Member" (.array [expr object, name n])
  | .withMember n => tag "WithMember" (name n)
  | .new n => tag "New" (name n)
  | .missing => .string "Missing"

def exprs : List Expr → List Json
  | [] => []
  | e :: rest => expr e :: exprs rest

end

def varDecl (decl : VarDecl) : Json :=
  .object [("name", name decl.name), ("dims", optional (fun dims => .array (exprs dims)) decl.dims)]

def constDecl (decl : ConstDecl) : Json :=
  .object [("name", name decl.name), ("value", expr decl.value)]

def loopCondition (condition : LoopCondition) : Json :=
  .object [("test", .string (loopTest condition.test)),
    ("position", .string (testPosition condition.position)), ("expr", expr condition.expr)]

def caseTest : CaseTest → Json
  | .value e => tag "Value" (expr e)
  | .range low high => tag "Range" (.array [expr low, expr high])
  | .is op e => tag "Is" (.array [.string (binaryOp op), expr e])

def param (p : Param) : Json := .object [("name", name p.name), ("by_val", .bool p.byVal)]

mutual

def stmt : Stmt → Json
  | ⟨k, r⟩ => .object [("kind", kind k), ("range", range r)]

def block : List Stmt → List Json
  | [] => []
  | s :: rest => stmt s :: block rest

def optionalBlock : Option (List Stmt) → Json
  | none => .null
  | some body => .array (block body)

def kind : StmtKind → Json
  | .call e => tag "Call" (expr e)
  | .assign target value set =>
    tag "Assign" (.object [("target", expr target), ("value", expr value), ("set", .bool set)])
  | .dim decls => tag "Dim" (.array (decls.map varDecl))
  | .redim preserve decls =>
    tag "ReDim" (.object [("preserve", .bool preserve), ("decls", .array (decls.map varDecl))])
  | .constants decls => tag "Const" (.array (decls.map constDecl))
  | .erase names => tag "Erase" (.array (names.map name))
  | .choose cases otherwise =>
    tag "If" (.object [("branches", .array (branches cases)), ("otherwise", optionalBlock otherwise)])
  | .forRange counter start stop step body =>
    tag "For" (.object [("counter", name counter), ("start", expr start), ("end", expr stop),
      ("step", optional expr step), ("body", .array (block body))])
  | .forEach element group body =>
    tag "ForEach" (.object [("element", name element), ("group", expr group),
      ("body", .array (block body))])
  | .doLoop condition body =>
    tag "Do" (.object [("condition", optional loopCondition condition),
      ("body", .array (block body))])
  | .whileLoop condition body =>
    tag "While" (.object [("condition", expr condition), ("body", .array (block body))])
  | .select subject cases otherwise =>
    tag "Select" (.object [("subject", expr subject), ("cases", .array (caseClauses cases)),
      ("otherwise", optionalBlock otherwise)])
  | .withBlock object body =>
    tag "With" (.object [("object", expr object), ("body", .array (block body))])
  | .exit k => tag "Exit" (.string (exitKind k))
  | .procedure decl => tag "Procedure" (procedure decl)
  | .classDef decl => tag "Class" (classDecl decl)
  | .onError mode => tag "OnError" (.string (errorMode mode))
  | .optionExplicit => .string "OptionExplicit"
  | .optionCompare mode => tag "OptionCompare" (.string (compareMode mode))

def branches : List Branch → List Json
  | [] => []
  | ⟨condition, body⟩ :: rest =>
    .object [("condition", expr condition), ("body", .array (block body))] :: branches rest

def caseClauses : List CaseClause → List Json
  | [] => []
  | ⟨tests, body⟩ :: rest =>
    .object [("tests", .array (tests.map caseTest)), ("body", .array (block body))] ::
      caseClauses rest

def procedure : Procedure → Json
  | ⟨n, k, a, isDefault, params, body⟩ =>
    .object [("name", name n), ("kind", .string (procedureKind k)), ("access", .string (access a)),
      ("is_default", .bool isDefault), ("params", .array (params.map param)),
      ("body", .array (block body))]

def classDecl : ClassDecl → Json
  | ⟨n, ms⟩ => .object [("name", .string n), ("members", .array (members ms))]

def members : List ClassMember → List Json
  | [] => []
  | .field a decl :: rest =>
    tag "Field" (.object [("access", .string (access a)), ("decl", varDecl decl)]) :: members rest
  | .procedure decl :: rest => tag "Procedure" (procedure decl) :: members rest

end

def piece : Section → Json
  | .markup text => tag "Markup" (.string text)
  | .code program => tag "Code" (.array (block program))
  | .output e r => tag "Output" (.array [expr e, range r])

end ServerScript.Code.Printer

namespace ServerScript

def Document.toJson (document : Document) : Json :=
  .object [("source", Code.Printer.optional .string document.source),
    ("sections", .array (document.sections.map Code.Printer.piece))]

def Document.toText (document : Document) : String := document.toJson.pretty

end ServerScript
