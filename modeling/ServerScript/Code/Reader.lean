import ServerScript.Code.Stmt
import ServerScript.Json.Reader

/-! Programs and documents from JSON. A choice is written as its tag, or as an object with the tag
as its only field; a record is an object, or an array of its members in order. Names are folded
while they are read. Every function takes a bound on the nesting it follows, which the depth limit
of JSON texts keeps from being reached. -/
namespace ServerScript.Code.Reader

def required (read : Json → Option α) (member : Option Json) : Option α := member.bind read

/-- A member that may be `null`, and that an object may leave out. -/
def optional (named : Bool) (read : Json → Option α) : Option Json → Option (Option α)
  | none => if named then some none else none
  | some json => json.option? read

def defaulted (value : α) (read : Json → Option α) : Option Json → Option α
  | none => some value
  | some json => read json

/-- A choice without content: the bare tag, or the tag with `null`. -/
def plainTag? (json : Json) : Option String :=
  match json.tagged? with
  | some (tag, none) => some tag
  | some (tag, some .null) => some tag
  | _ => none

def oneOf? (table : List (String × α)) (json : Json) : Option α :=
  (plainTag? json).bind fun tag => (table.find? (·.1 == tag)).map (·.2)

def name? (json : Json) : Option Name := json.text?.map Name.ofText

def position? (json : Json) : Option Position :=
  match json.record? ["line", "column"] with
  | some ([line, column], _) => do
    let line ← required (Json.nat? (UInt32.size - 1)) line
    let column ← required (Json.nat? (UInt64.size - 1)) column
    return ⟨line, column⟩
  | _ => none

def range? (json : Json) : Option Range :=
  match json.record? ["start", "end"] with
  | some ([start, stop], _) => do
    let start ← required position? start
    let stop ← required position? stop
    return ⟨start, stop⟩
  | _ => none

def unaryOps : List (String × UnaryOp) := [("Neg", .neg), ("Not", .not)]

def binaryOps : List (String × BinaryOp) :=
  [("Add", .add), ("Sub", .sub), ("Mul", .mul), ("Div", .div), ("IntDiv", .intDiv), ("Mod", .mod),
    ("Pow", .pow), ("Concat", .concat), ("Eq", .eq), ("Ne", .ne), ("Lt", .lt), ("Le", .le),
    ("Gt", .gt), ("Ge", .ge), ("And", .and), ("Or", .or), ("Xor", .xor), ("Eqv", .eqv),
    ("Imp", .imp), ("Is", .is)]

def loopTests : List (String × LoopTest) := [("While", .whileTrue), ("Until", .untilTrue)]

def testPositions : List (String × TestPosition) := [("Pre", .pre), ("Post", .post)]

def exitKinds : List (String × ExitKind) :=
  [("For", .forLoop), ("Do", .doLoop), ("While", .whileLoop), ("Select", .select), ("Sub", .sub),
    ("Function", .function), ("Property", .property)]

def errorModes : List (String × ErrorMode) :=
  [("ResumeNext", .resumeNext), ("GotoZero", .gotoZero)]

def compareModes : List (String × CompareMode) := [("Binary", .binary), ("Text", .text)]

def accesses : List (String × Access) := [("Public", .everyone), ("Private", .instanceOnly)]

def procedureKinds : List (String × ProcedureKind) :=
  [("Sub", .sub), ("Function", .function), ("PropertyGet", .propertyGet),
    ("PropertyLet", .propertyLet), ("PropertySet", .propertySet)]

def literals : List (String × Literal) :=
  [("Empty", .empty), ("Null", .null), ("Nothing", .nothing)]

def literal? (json : Json) : Option Literal :=
  match json.tagged? with
  | some ("Bool", some content) => content.bool?.map .bool
  | some ("Integer", some content) => content.word?.map .integer
  | some ("Float", some content) => content.float?.map .float
  | some ("String", some content) => content.text?.map .string
  | _ => oneOf? literals json

def plainExprs : List (String × Expr) := [("Me", .me), ("Missing", .missing)]

def expr? : Nat → Json → Option Expr
  | 0, _ => none
  | fuel + 1, json =>
    match json.tagged? with
    | some ("Literal", some content) => (literal? content).map .literal
    | some ("Ident", some content) => (name? content).map .ident
    | some ("Unary", some (.array [op, operand])) => do
      return .unary (← oneOf? unaryOps op) (← expr? fuel operand)
    | some ("Binary", some (.array [op, lhs, rhs])) => do
      return .binary (← oneOf? binaryOps op) (← expr? fuel lhs) (← expr? fuel rhs)
    | some ("Call", some (.array [callee, args])) => do
      return .call (← expr? fuel callee) (← args.list? (expr? fuel))
    | some ("Member", some (.array [object, name])) => do
      return .member (← expr? fuel object) (← name? name)
    | some ("WithMember", some content) => (name? content).map .withMember
    | some ("New", some content) => (name? content).map .new
    | _ => oneOf? plainExprs json

def varDecl? (fuel : Nat) (json : Json) : Option VarDecl :=
  match json.record? ["name", "dims"] with
  | some ([name, dims], _) => do
    let name ← required name? name
    let dims ← defaulted none (Json.option? (Json.list? (expr? fuel))) dims
    return ⟨name, dims⟩
  | _ => none

def constDecl? (fuel : Nat) (json : Json) : Option ConstDecl :=
  match json.record? ["name", "value"] with
  | some ([name, value], _) => do
    let name ← required name? name
    let value ← required (expr? fuel) value
    return ⟨name, value⟩
  | _ => none

def loopCondition? (fuel : Nat) (json : Json) : Option LoopCondition :=
  match json.record? ["test", "position", "expr"] with
  | some ([test, position, expr], _) => do
    let test ← required (oneOf? loopTests) test
    let position ← required (oneOf? testPositions) position
    let expr ← required (expr? fuel) expr
    return ⟨test, position, expr⟩
  | _ => none

def caseTest? (fuel : Nat) (json : Json) : Option CaseTest :=
  match json.tagged? with
  | some ("Value", some content) => (expr? fuel content).map .value
  | some ("Range", some (.array [low, high])) => do
    return .range (← expr? fuel low) (← expr? fuel high)
  | some ("Is", some (.array [op, expr])) => do
    return .is (← oneOf? binaryOps op) (← expr? fuel expr)
  | _ => none

def param? (json : Json) : Option Param :=
  match json.record? ["name", "by_val"] with
  | some ([name, byVal], _) => do
    let name ← required name? name
    let byVal ← defaulted false Json.bool? byVal
    return ⟨name, byVal⟩
  | _ => none

def plainKinds : List (String × StmtKind) := [("OptionExplicit", .optionExplicit)]

mutual

def stmt? : Nat → Json → Option Stmt
  | 0, _ => none
  | fuel + 1, json =>
    match json.record? ["kind", "range"] with
    | some ([kind, range], _) => do
      let kind ← required (kind? fuel) kind
      let range ← defaulted {} range? range
      return ⟨kind, range⟩
    | _ => none

def kind? : Nat → Json → Option StmtKind
  | 0, _ => none
  | fuel + 1, json =>
    let block := Json.list? (stmt? fuel)
    match json.tagged? with
    | some ("Call", some content) => (expr? fuel content).map .call
    | some ("Assign", some content) =>
      match content.record? ["target", "value", "set"] with
      | some ([target, value, set], _) => do
        let target ← required (expr? fuel) target
        let value ← required (expr? fuel) value
        let set ← defaulted false Json.bool? set
        return .assign target value set
      | _ => none
    | some ("Dim", some content) => (content.list? (varDecl? fuel)).map .dim
    | some ("ReDim", some content) =>
      match content.record? ["preserve", "decls"] with
      | some ([preserve, decls], _) => do
        let preserve ← required Json.bool? preserve
        let decls ← required (Json.list? (varDecl? fuel)) decls
        return .redim preserve decls
      | _ => none
    | some ("Const", some content) => (content.list? (constDecl? fuel)).map .constants
    | some ("Erase", some content) => (content.list? name?).map .erase
    | some ("If", some content) =>
      match content.record? ["branches", "otherwise"] with
      | some ([branches, otherwise], named) => do
        let branches ← required (Json.list? (branch? fuel)) branches
        let otherwise ← optional named block otherwise
        return .choose branches otherwise
      | _ => none
    | some ("For", some content) =>
      match content.record? ["counter", "start", "end", "step", "body"] with
      | some ([counter, start, stop, step, body], named) => do
        let counter ← required name? counter
        let start ← required (expr? fuel) start
        let stop ← required (expr? fuel) stop
        let step ← optional named (expr? fuel) step
        let body ← required block body
        return .forRange counter start stop step body
      | _ => none
    | some ("ForEach", some content) =>
      match content.record? ["element", "group", "body"] with
      | some ([element, group, body], _) => do
        let element ← required name? element
        let group ← required (expr? fuel) group
        let body ← required block body
        return .forEach element group body
      | _ => none
    | some ("Do", some content) =>
      match content.record? ["condition", "body"] with
      | some ([condition, body], named) => do
        let condition ← optional named (loopCondition? fuel) condition
        let body ← required block body
        return .doLoop condition body
      | _ => none
    | some ("While", some content) =>
      match content.record? ["condition", "body"] with
      | some ([condition, body], _) => do
        let condition ← required (expr? fuel) condition
        let body ← required block body
        return .whileLoop condition body
      | _ => none
    | some ("Select", some content) =>
      match content.record? ["subject", "cases", "otherwise"] with
      | some ([subject, cases, otherwise], named) => do
        let subject ← required (expr? fuel) subject
        let cases ← required (Json.list? (caseClause? fuel)) cases
        let otherwise ← optional named block otherwise
        return .select subject cases otherwise
      | _ => none
    | some ("With", some content) =>
      match content.record? ["object", "body"] with
      | some ([object, body], _) => do
        let object ← required (expr? fuel) object
        let body ← required block body
        return .withBlock object body
      | _ => none
    | some ("Exit", some content) => (oneOf? exitKinds content).map .exit
    | some ("Procedure", some content) => (procedure? fuel content).map .procedure
    | some ("Class", some content) => (classDecl? fuel content).map .classDef
    | some ("OnError", some content) => (oneOf? errorModes content).map .onError
    | some ("OptionCompare", some content) => (oneOf? compareModes content).map .optionCompare
    | _ => oneOf? plainKinds json

def branch? : Nat → Json → Option Branch
  | 0, _ => none
  | fuel + 1, json =>
    match json.record? ["condition", "body"] with
    | some ([condition, body], _) => do
      let condition ← required (expr? fuel) condition
      let body ← required (Json.list? (stmt? fuel)) body
      return ⟨condition, body⟩
    | _ => none

def caseClause? : Nat → Json → Option CaseClause
  | 0, _ => none
  | fuel + 1, json =>
    match json.record? ["tests", "body"] with
    | some ([tests, body], _) => do
      let tests ← required (Json.list? (caseTest? fuel)) tests
      let body ← required (Json.list? (stmt? fuel)) body
      return ⟨tests, body⟩
    | _ => none

def procedure? : Nat → Json → Option Procedure
  | 0, _ => none
  | fuel + 1, json =>
    match json.record? ["name", "kind", "access", "is_default", "params", "body"] with
    | some ([name, kind, access, isDefault, params, body], _) => do
      let name ← required name? name
      let kind ← required (oneOf? procedureKinds) kind
      let access ← defaulted .everyone (oneOf? accesses) access
      let isDefault ← defaulted false Json.bool? isDefault
      let params ← required (Json.list? param?) params
      let body ← required (Json.list? (stmt? fuel)) body
      return ⟨name, kind, access, isDefault, params, body⟩
    | _ => none

def classDecl? : Nat → Json → Option ClassDecl
  | 0, _ => none
  | fuel + 1, json =>
    match json.record? ["name", "members"] with
    | some ([name, members], _) => do
      let name ← required Json.text? name
      let members ← required (Json.list? (classMember? fuel)) members
      return ⟨name, members⟩
    | _ => none

def classMember? : Nat → Json → Option ClassMember
  | 0, _ => none
  | fuel + 1, json =>
    match json.tagged? with
    | some ("Field", some content) =>
      match content.record? ["access", "decl"] with
      | some ([access, decl], _) => do
        let access ← required (oneOf? accesses) access
        let decl ← required (varDecl? fuel) decl
        return .field access decl
      | _ => none
    | some ("Procedure", some content) => (procedure? fuel content).map .procedure
    | _ => none

end

def nesting : Nat := 2 * Json.depthLimit

def section? (json : Json) : Option Section :=
  match json.tagged? with
  | some ("Markup", some content) => content.text?.map .markup
  | some ("Code", some content) => (content.list? (stmt? nesting)).map .code
  | some ("Output", some (.array [expr])) => (expr? nesting expr).map (.output · {})
  | some ("Output", some (.array [expr, range])) => do
    return .output (← expr? nesting expr) (← range? range)
  | _ => none

def document? (json : Json) : Option Document :=
  match json.record? ["source", "sections"] with
  | some ([source, sections], _) => do
    let source ← defaulted none (Json.option? Json.text?) source
    let sections ← required (Json.list? section?) sections
    return ⟨source, sections⟩
  | _ => none

end ServerScript.Code.Reader

namespace ServerScript

def Expr.ofJson? (json : Json) : Option Expr := Code.Reader.expr? Code.Reader.nesting json

def Block.ofJson? (json : Json) : Option Block :=
  json.list? (Code.Reader.stmt? Code.Reader.nesting)

def ClassDecl.ofJson? (json : Json) : Option ClassDecl :=
  Code.Reader.classDecl? Code.Reader.nesting json

def Document.ofJson? (json : Json) : Option Document := Code.Reader.document? json

def Document.ofText? (text : String) : Option Document := (Json.parse? text).bind Document.ofJson?

end ServerScript
