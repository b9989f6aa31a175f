import ServerScript.Code.Printer
import ServerScript.Code.Reader
import ServerScript.Proofs.JsonText

/-! Documents from their own texts. A document is printed with all members of all records, so a
reader finds each of them; choices are told apart by their tags. Every reader that calls itself
gives up one unit of its bound for at least one level of nesting, so the bound is not reached. What
can get lost on the way is in the leaves alone: a double, a name that is not folded, a place in the
source that is out of range. -/
namespace ServerScript

/-- What programs are made of in the end: values, names and places in the source. -/
inductive Leaf where
  | literal (value : Literal)
  | name (name : Name)
  | position (position : Position)

def Leaf.Portable : Leaf → Prop
  | literal value => ∀ x, value ≠ .float x
  | name n => Name.ofText n.text = n
  | position p => p.line < UInt32.size ∧ p.column < UInt64.size

def Range.leaves (r : Range) : List Leaf := [.position r.start, .position r.stop]

mutual

def Expr.leaves : Expr → List Leaf
  | .literal value => [.literal value]
  | .ident n => [.name n]
  | .me => []
  | .unary _ operand => operand.leaves
  | .binary _ lhs rhs => lhs.leaves ++ rhs.leaves
  | .call callee args => callee.leaves ++ exprLeaves args
  | .member object n => object.leaves ++ [.name n]
  | .withMember n => [.name n]
  | .new n => [.name n]
  | .missing => []

def exprLeaves : List Expr → List Leaf
  | [] => []
  | e :: rest => e.leaves ++ exprLeaves rest

end

def VarDecl.leaves (decl : VarDecl) : List Leaf := .name decl.name :: exprLeaves (decl.dims.getD [])

def ConstDecl.leaves (decl : ConstDecl) : List Leaf := .name decl.name :: decl.value.leaves

def LoopCondition.leaves (condition : LoopCondition) : List Leaf := condition.expr.leaves

def CaseTest.leaves : CaseTest → List Leaf
  | .value e => e.leaves
  | .range low high => low.leaves ++ high.leaves
  | .is _ e => e.leaves

mutual

def Stmt.leaves : Stmt → List Leaf
  | ⟨kind, range⟩ => kind.leaves ++ range.leaves

def StmtKind.leaves : StmtKind → List Leaf
  | .call e => e.leaves
  | .assign target value _ => target.leaves ++ value.leaves
  | .dim decls => decls.flatMap (·.leaves)
  | .redim _ decls => decls.flatMap (·.leaves)
  | .constants decls => decls.flatMap (·.leaves)
  | .erase names => names.map .name
  | .choose branches otherwise => branchLeaves branches ++ otherwiseLeaves otherwise
  | .forRange counter start stop step body =>
    .name counter :: start.leaves ++ stop.leaves ++ exprLeaves step.toList ++ blockLeaves body
  | .forEach element group body => .name element :: group.leaves ++ blockLeaves body
  | .doLoop condition body => condition.toList.flatMap (·.leaves) ++ blockLeaves body
  | .whileLoop condition body => condition.leaves ++ blockLeaves body
  | .select subject cases otherwise =>
    subject.leaves ++ caseLeaves cases ++ otherwiseLeaves otherwise
  | .withBlock object body => object.leaves ++ blockLeaves body
  | .exit _ => []
  | .procedure decl => decl.leaves
  | .classDef decl => decl.leaves
  | .onError _ => []
  | .optionExplicit => []
  | .optionCompare _ => []

def blockLeaves : List Stmt → List Leaf
  | [] => []
  | stmt :: rest => stmt.leaves ++ blockLeaves rest

def branchLeaves : List Branch → List Leaf
  | [] => []
  | ⟨condition, body⟩ :: rest => condition.leaves ++ blockLeaves body ++ branchLeaves rest

def caseLeaves : List CaseClause → List Leaf
  | [] => []
  | ⟨tests, body⟩ :: rest =>
    tests.flatMap (·.leaves) ++ blockLeaves body ++ caseLeaves rest

def otherwiseLeaves : Option (List Stmt) → List Leaf
  | none => []
  | some body => blockLeaves body

def Procedure.leaves : Procedure → List Leaf
  | ⟨name, _, _, _, params, body⟩ =>
    .name name :: params.map (fun param => .name param.name) ++ blockLeaves body

def ClassDecl.leaves : ClassDecl → List Leaf
  | ⟨_, members⟩ => memberLeaves members

def memberLeaves : List ClassMember → List Leaf
  | [] => []
  | .field _ decl :: rest => decl.leaves ++ memberLeaves rest
  | .procedure decl :: rest => decl.leaves ++ memberLeaves rest

end

def Section.leaves : Section → List Leaf
  | .markup _ => []
  | .code program => blockLeaves program
  | .output e range => e.leaves ++ range.leaves

def Document.leaves (document : Document) : List Leaf := document.sections.flatMap (·.leaves)

namespace Json

theorem Plain.nat (n : Nat) : (Json.nat n).Plain := Plain.int n

theorem plain_tag {tag : String} {j : Json} (plain : j.Plain) : (Code.Printer.tag tag j).Plain :=
  .object (by simpa [Code.Printer.tag] using plain)

@[simp] theorem nesting_tag (tag : String) (j : Json) :
    (Code.Printer.tag tag j).nesting = j.nesting + 1 := by
  simp [Code.Printer.tag, nesting, nesting.ofFields]

@[simp] theorem nesting_array (items : List Json) :
    (Json.array items).nesting = nesting.ofItems items + 1 := rfl

@[simp] theorem nesting_object (fields : List (String × Json)) :
    (Json.object fields).nesting = nesting.ofFields fields + 1 := rfl

attribute [simp] nesting.ofItems nesting.ofFields

theorem nesting_le_ofItems {j : Json} {items : List Json} (member : j ∈ items) :
    j.nesting ≤ nesting.ofItems items := by
  induction items with
  | nil => cases member
  | cons item rest ih =>
    rw [nesting.ofItems]
    rcases List.mem_cons.mp member with rfl | member
    · omega
    · have := ih member
      omega

end Json

namespace Code

open Json (Plain nesting)

structure Returns (read : Json → Option α) (j : Json) (a : α) : Prop where
  plain : j.Plain
  read : read j = some a

namespace Returns

variable {read : Json → Option α} {print : α → Json}

theorem string (text : String) : Returns Json.text? (.string text) text := ⟨.string text, rfl⟩

theorem name {n : Name} (folded : (Leaf.name n).Portable) :
    Returns Reader.name? (Printer.name n) n :=
  ⟨.string n.text, congrArg some folded⟩

theorem choice {table : List (String × α)} {tag : String} {a : α}
    (listed : (table.find? (·.1 == tag)).map (·.2) = some a) :
    Returns (Reader.oneOf? table) (.string tag) a := ⟨.string tag, listed⟩

theorem list {items : List α} (all : ∀ a ∈ items, Returns read (print a) a) :
    Returns (Json.list? read) (.array (items.map print)) items := by
  refine ⟨.array ?_, ?_⟩
  · simpa using fun a member => (all a member).plain
  · rw [Json.list?]
    induction items with
    | nil => rfl
    | cons a rest ih =>
      rw [List.forall_mem_cons] at all
      simp [all.1.read, ih all.2]

theorem option {o : Option α} (all : ∀ a ∈ o, Returns read (print a) a)
    (solid : ∀ a, print a ≠ .null) :
    Returns (Json.option? read) (Printer.optional print o) o := by
  cases o with
  | none => exact ⟨.null, rfl⟩
  | some a =>
    have one := all a rfl
    refine ⟨one.plain, ?_⟩
    rw [Printer.optional, Json.option?]
    · rw [one.read]
      rfl
    · exact solid a

end Returns

theorem bind_some {x : Option α} {f : α → Option β} {a : α} {b : β} (first : x = some a)
    (rest : f a = some b) : x >>= f = some b := by
  rw [first]
  exact rest

theorem returns_position {p : Position} (fits : (Leaf.position p).Portable) :
    Returns Reader.position? (Printer.position p) p := by
  refine ⟨.object (by simp [Plain.nat]), ?_⟩
  have line : Json.nat? (UInt32.size - 1) (.nat p.line) = some p.line :=
    Json.nat?_nat (Nat.le_sub_one_of_lt fits.1) (by decide)
  have column : Json.nat? (UInt64.size - 1) (.nat p.column) = some p.column :=
    Json.nat?_nat (Nat.le_sub_one_of_lt fits.2) (by decide)
  exact bind_some line (bind_some column rfl)

theorem returns_range {r : Range} (fits : ∀ leaf ∈ r.leaves, leaf.Portable) :
    Returns Reader.range? (Printer.range r) r := by
  have start := returns_position (fits (.position r.start) (by simp [Range.leaves]))
  have stop := returns_position (fits (.position r.stop) (by simp [Range.leaves]))
  exact ⟨.object (by simp [start.plain, stop.plain]),
    bind_some start.read (bind_some stop.read rfl)⟩

theorem returns_literal {value : Literal} (exact : (Leaf.literal value).Portable) :
    Returns Reader.literal? (Printer.literal value) value := by
  cases value with
  | empty => exact ⟨.string _, rfl⟩
  | null => exact ⟨.string _, rfl⟩
  | nothing => exact ⟨.string _, rfl⟩
  | bool b => exact ⟨Json.plain_tag (.bool b), rfl⟩
  | integer n =>
    exact ⟨Json.plain_tag (.int n.toInt), congrArg (Option.map Literal.integer) (Json.word?_int n)⟩
  | float x => exact absurd rfl (exact x)
  | string s => exact ⟨Json.plain_tag (.string s), rfl⟩

theorem returns_unaryOp (op : UnaryOp) :
    Returns (Reader.oneOf? Reader.unaryOps) (.string (Printer.unaryOp op)) op := by
  cases op <;> exact .choice rfl

theorem returns_binaryOp (op : BinaryOp) :
    Returns (Reader.oneOf? Reader.binaryOps) (.string (Printer.binaryOp op)) op := by
  cases op <;> exact .choice rfl

theorem returns_parts {read : Json → Option α} {print : α → Json} {leaves : α → List Leaf}
    {parts : List α} {n : Nat} (portable : ∀ leaf ∈ parts.flatMap leaves, leaf.Portable)
    (shallow : nesting.ofItems (parts.map print) < n)
    (one : ∀ a, (∀ leaf ∈ leaves a, leaf.Portable) → (print a).nesting < n →
      Returns read (print a) a) :
    Returns (Json.list? read) (.array (parts.map print)) parts := by
  refine .list fun a member => one a (fun leaf inside => ?_) ?_
  · exact portable leaf (List.mem_flatMap.mpr ⟨a, member, inside⟩)
  · exact Nat.lt_of_le_of_lt (Json.nesting_le_ofItems (List.mem_map_of_mem member)) shallow

theorem exprs_eq (es : List Expr) : Printer.exprs es = es.map Printer.expr := by
  induction es with
  | nil => rfl
  | cons e rest ih => rw [Printer.exprs, ih, List.map_cons]

theorem exprLeaves_eq (es : List Expr) : exprLeaves es = es.flatMap (·.leaves) := by
  induction es with
  | nil => rfl
  | cons e rest ih => rw [exprLeaves, ih, List.flatMap_cons]

theorem expr_ne_null (e : Expr) : Printer.expr e ≠ .null := by
  cases e <;> exact nofun

def ReadsExprs (n : Nat) : Prop :=
  ∀ e : Expr, (∀ leaf ∈ e.leaves, leaf.Portable) → (Printer.expr e).nesting < n →
    Returns (Reader.expr? n) (Printer.expr e) e

theorem ReadsExprs.list {n : Nat} (reads : ReadsExprs n) {es : List Expr}
    (portable : ∀ leaf ∈ exprLeaves es, leaf.Portable)
    (shallow : nesting.ofItems (Printer.exprs es) < n) :
    Returns (Json.list? (Reader.expr? n)) (.array (Printer.exprs es)) es := by
  rw [exprLeaves_eq] at portable
  rw [exprs_eq] at shallow ⊢
  exact returns_parts portable shallow reads

theorem readsExprs (n : Nat) : ReadsExprs n := by
  induction n with
  | zero => exact fun _ _ shallow => absurd shallow (Nat.not_lt_zero _)
  | succ n ih =>
    intro e portable shallow
    cases e with
    | literal value =>
      have inner := returns_literal (portable (.literal value) (by simp [Expr.leaves]))
      exact ⟨Json.plain_tag inner.plain, congrArg (Option.map Expr.literal) inner.read⟩
    | ident x =>
      have inner := Returns.name (portable (.name x) (by simp [Expr.leaves]))
      exact ⟨Json.plain_tag inner.plain, congrArg (Option.map Expr.ident) inner.read⟩
    | me => exact ⟨.string _, rfl⟩
    | unary op operand =>
      simp [Printer.expr] at shallow
      rw [Expr.leaves] at portable
      have op := returns_unaryOp op
      have operand := ih operand portable (by omega)
      refine ⟨Json.plain_tag (.array (by simp [op.plain, operand.plain])), ?_⟩
      exact bind_some op.read (bind_some operand.read rfl)
    | binary op lhs rhs =>
      simp [Printer.expr] at shallow
      rw [Expr.leaves, List.forall_mem_append] at portable
      have op := returns_binaryOp op
      have lhs := ih lhs portable.1 (by omega)
      have rhs := ih rhs portable.2 (by omega)
      refine ⟨Json.plain_tag (.array (by simp [op.plain, lhs.plain, rhs.plain])), ?_⟩
      exact bind_some op.read (bind_some lhs.read (bind_some rhs.read rfl))
    | call callee args =>
      simp [Printer.expr] at shallow
      rw [Expr.leaves, List.forall_mem_append] at portable
      have callee := ih callee portable.1 (by omega)
      have args := ih.list portable.2 (by omega)
      refine ⟨Json.plain_tag (.array (by simp [callee.plain, args.plain])), ?_⟩
      exact bind_some callee.read (bind_some args.read rfl)
    | member object x =>
      simp [Printer.expr] at shallow
      rw [Expr.leaves, List.forall_mem_append] at portable
      have object := ih object portable.1 (by omega)
      have x := Returns.name (portable.2 (.name x) List.mem_cons_self)
      refine ⟨Json.plain_tag (.array (by simp [object.plain, x.plain])), ?_⟩
      exact bind_some object.read (bind_some x.read rfl)
    | withMember x =>
      have inner := Returns.name (portable (.name x) (by simp [Expr.leaves]))
      exact ⟨Json.plain_tag inner.plain, congrArg (Option.map Expr.withMember) inner.read⟩
    | new x =>
      have inner := Returns.name (portable (.name x) (by simp [Expr.leaves]))
      exact ⟨Json.plain_tag inner.plain, congrArg (Option.map Expr.new) inner.read⟩
    | missing => exact ⟨.string _, rfl⟩

section

variable {n : Nat}

theorem returns_varDecl {decl : VarDecl} (portable : ∀ leaf ∈ decl.leaves, leaf.Portable)
    (shallow : (Printer.varDecl decl).nesting < n) :
    Returns (Reader.varDecl? n) (Printer.varDecl decl) decl := by
  rw [VarDecl.leaves, List.forall_mem_cons] at portable
  have x := Returns.name portable.1
  have dims : Returns (Json.option? (Json.list? (Reader.expr? n)))
      (Printer.optional (fun dims => .array (Printer.exprs dims)) decl.dims) decl.dims := by
    refine .option (fun dims given => ?_) fun _ => nofun
    obtain given : decl.dims = some dims := given
    simp [Printer.varDecl, given, Printer.optional] at shallow
    rw [given] at portable
    exact (readsExprs n).list portable.2 (by omega)
  refine ⟨.object (by simp [x.plain, dims.plain]), ?_⟩
  exact bind_some x.read (bind_some dims.read rfl)

theorem returns_constDecl {decl : ConstDecl} (portable : ∀ leaf ∈ decl.leaves, leaf.Portable)
    (shallow : (Printer.constDecl decl).nesting < n) :
    Returns (Reader.constDecl? n) (Printer.constDecl decl) decl := by
  simp [Printer.constDecl] at shallow
  rw [ConstDecl.leaves, List.forall_mem_cons] at portable
  have x := Returns.name portable.1
  have value := readsExprs n decl.value portable.2 (by omega)
  refine ⟨.object (by simp [x.plain, value.plain]), ?_⟩
  exact bind_some x.read (bind_some value.read rfl)

theorem returns_loopCondition {condition : LoopCondition}
    (portable : ∀ leaf ∈ condition.leaves, leaf.Portable)
    (shallow : (Printer.loopCondition condition).nesting < n) :
    Returns (Reader.loopCondition? n) (Printer.loopCondition condition) condition := by
  simp [Printer.loopCondition] at shallow
  have test : Reader.oneOf? Reader.loopTests (.string (Printer.loopTest condition.test)) =
      some condition.test := by cases condition.test <;> rfl
  have position : Reader.oneOf? Reader.testPositions
      (.string (Printer.testPosition condition.position)) = some condition.position := by
    cases condition.position <;> rfl
  have e := readsExprs n condition.expr portable (by omega)
  refine ⟨.object (by simp [Plain.string, e.plain]), ?_⟩
  exact bind_some test (bind_some position (bind_some e.read rfl))

theorem returns_caseTest {test : CaseTest} (portable : ∀ leaf ∈ test.leaves, leaf.Portable)
    (shallow : (Printer.caseTest test).nesting < n) :
    Returns (Reader.caseTest? n) (Printer.caseTest test) test := by
  cases test with
  | value e =>
    simp [Printer.caseTest] at shallow
    have e := readsExprs n e portable (by omega)
    exact ⟨Json.plain_tag e.plain, congrArg (Option.map CaseTest.value) e.read⟩
  | range low high =>
    simp [Printer.caseTest] at shallow
    rw [CaseTest.leaves, List.forall_mem_append] at portable
    have low := readsExprs n low portable.1 (by omega)
    have high := readsExprs n high portable.2 (by omega)
    refine ⟨Json.plain_tag (.array (by simp [low.plain, high.plain])), ?_⟩
    exact bind_some low.read (bind_some high.read rfl)
  | is op e =>
    simp [Printer.caseTest] at shallow
    have op := returns_binaryOp op
    have e := readsExprs n e portable (by omega)
    refine ⟨Json.plain_tag (.array (by simp [op.plain, e.plain])), ?_⟩
    exact bind_some op.read (bind_some e.read rfl)

theorem returns_param {param : Param} (folded : (Leaf.name param.name).Portable) :
    Returns Reader.param? (Printer.param param) param := by
  have x := Returns.name folded
  exact ⟨.object (by simp [x.plain, Plain.bool]), bind_some x.read rfl⟩

theorem returns_access (a : Access) :
    Returns (Reader.oneOf? Reader.accesses) (.string (Printer.access a)) a := by
  cases a <;> exact .choice rfl

theorem returns_step {step : Option Expr}
    (portable : ∀ leaf ∈ exprLeaves step.toList, leaf.Portable)
    (shallow : (Printer.optional Printer.expr step).nesting < n) :
    Returns (Json.option? (Reader.expr? n)) (Printer.optional Printer.expr step) step := by
  refine .option (fun e given => ?_) expr_ne_null
  obtain rfl : step = some e := given
  exact readsExprs n e (by simpa [exprLeaves] using portable) shallow

end

/-! ### Statements -/

def Printer.branch (b : Branch) : Json :=
  .object [("condition", expr b.condition), ("body", .array (block b.body))]

def Printer.caseClause (c : CaseClause) : Json :=
  .object [("tests", .array (c.tests.map caseTest)), ("body", .array (block c.body))]

def Printer.member : ClassMember → Json
  | .field a decl => tag "Field" (.object [("access", .string (access a)), ("decl", varDecl decl)])
  | .procedure decl => tag "Procedure" (procedure decl)

theorem block_eq (b : Block) : Printer.block b = b.map Printer.stmt := by
  induction b with
  | nil => rfl
  | cons s rest ih => rw [Printer.block, ih, List.map_cons]

theorem branches_eq (bs : List Branch) : Printer.branches bs = bs.map Printer.branch := by
  induction bs with
  | nil => rfl
  | cons b rest ih => cases b; rw [Printer.branches, ih, List.map_cons, Printer.branch]

theorem caseClauses_eq (cs : List CaseClause) :
    Printer.caseClauses cs = cs.map Printer.caseClause := by
  induction cs with
  | nil => rfl
  | cons c rest ih => cases c; rw [Printer.caseClauses, ih, List.map_cons, Printer.caseClause]

theorem members_eq (ms : List ClassMember) : Printer.members ms = ms.map Printer.member := by
  induction ms with
  | nil => rfl
  | cons m rest ih => cases m <;> rw [Printer.members, ih, List.map_cons, Printer.member]

end Code

def Branch.leaves (b : Branch) : List Leaf := b.condition.leaves ++ blockLeaves b.body

def CaseClause.leaves (c : CaseClause) : List Leaf :=
  c.tests.flatMap (·.leaves) ++ blockLeaves c.body

def ClassMember.leaves : ClassMember → List Leaf
  | .field _ decl => decl.leaves
  | .procedure decl => decl.leaves

theorem blockLeaves_eq (b : Block) : blockLeaves b = b.flatMap (·.leaves) := by
  induction b with
  | nil => rfl
  | cons s rest ih => rw [blockLeaves, ih, List.flatMap_cons]

theorem branchLeaves_eq (bs : List Branch) : branchLeaves bs = bs.flatMap (·.leaves) := by
  induction bs with
  | nil => rfl
  | cons b rest ih => cases b; rw [branchLeaves, ih, List.flatMap_cons, Branch.leaves]

theorem caseLeaves_eq (cs : List CaseClause) : caseLeaves cs = cs.flatMap (·.leaves) := by
  induction cs with
  | nil => rfl
  | cons c rest ih => cases c; rw [caseLeaves, ih, List.flatMap_cons, CaseClause.leaves]

theorem memberLeaves_eq (ms : List ClassMember) : memberLeaves ms = ms.flatMap (·.leaves) := by
  induction ms with
  | nil => rfl
  | cons m rest ih => cases m <;> rw [memberLeaves, ih, List.flatMap_cons, ClassMember.leaves]

namespace Code

open Json (Plain nesting)

/-- Readers of statements, of their parts and of declarations with a bound read what nests less
deep. -/
structure ReadsStmts (n : Nat) : Prop where
  stmt : ∀ s : Stmt, (∀ leaf ∈ s.leaves, leaf.Portable) → (Printer.stmt s).nesting < n →
    Returns (Reader.stmt? n) (Printer.stmt s) s
  kind : ∀ k : StmtKind, (∀ leaf ∈ k.leaves, leaf.Portable) → (Printer.kind k).nesting < n →
    Returns (Reader.kind? n) (Printer.kind k) k
  branch : ∀ b : Branch, (∀ leaf ∈ b.leaves, leaf.Portable) → (Printer.branch b).nesting < n →
    Returns (Reader.branch? n) (Printer.branch b) b
  caseClause : ∀ c : CaseClause, (∀ leaf ∈ c.leaves, leaf.Portable) →
    (Printer.caseClause c).nesting < n → Returns (Reader.caseClause? n) (Printer.caseClause c) c
  procedure : ∀ decl : Procedure, (∀ leaf ∈ decl.leaves, leaf.Portable) →
    (Printer.procedure decl).nesting < n →
    Returns (Reader.procedure? n) (Printer.procedure decl) decl
  classDecl : ∀ decl : ClassDecl, (∀ leaf ∈ decl.leaves, leaf.Portable) →
    (Printer.classDecl decl).nesting < n →
    Returns (Reader.classDecl? n) (Printer.classDecl decl) decl
  member : ∀ m : ClassMember, (∀ leaf ∈ m.leaves, leaf.Portable) → (Printer.member m).nesting < n →
    Returns (Reader.classMember? n) (Printer.member m) m

namespace ReadsStmts

variable {n : Nat} (reads : ReadsStmts n)

include reads

theorem block {b : Block} (portable : ∀ leaf ∈ blockLeaves b, leaf.Portable)
    (shallow : nesting.ofItems (Printer.block b) < n) :
    Returns (Json.list? (Reader.stmt? n)) (.array (Printer.block b)) b := by
  rw [blockLeaves_eq] at portable
  rw [block_eq] at shallow ⊢
  exact returns_parts portable shallow reads.stmt

theorem otherwise {o : Option Block} (portable : ∀ leaf ∈ otherwiseLeaves o, leaf.Portable)
    (shallow : (Printer.optionalBlock o).nesting < n) :
    Returns (Json.option? (Json.list? (Reader.stmt? n))) (Printer.optionalBlock o) o := by
  cases o with
  | none => exact ⟨.null, rfl⟩
  | some b =>
    simp [Printer.optionalBlock] at shallow
    have inner := reads.block portable (by omega)
    exact ⟨inner.plain, congrArg (Option.map some) inner.read⟩

theorem next_stmt {s : Stmt} (portable : ∀ leaf ∈ s.leaves, leaf.Portable)
    (shallow : (Printer.stmt s).nesting < n + 1) :
    Returns (Reader.stmt? (n + 1)) (Printer.stmt s) s := by
  obtain ⟨k, r⟩ := s
  simp [Printer.stmt] at shallow
  rw [Stmt.leaves, List.forall_mem_append] at portable
  have k := reads.kind k portable.1 (by omega)
  have r := returns_range portable.2
  refine ⟨.object (by simp [k.plain, r.plain]), ?_⟩
  exact bind_some k.read (bind_some r.read rfl)

theorem next_branch {b : Branch} (portable : ∀ leaf ∈ b.leaves, leaf.Portable)
    (shallow : (Printer.branch b).nesting < n + 1) :
    Returns (Reader.branch? (n + 1)) (Printer.branch b) b := by
  obtain ⟨condition, body⟩ := b
  simp [Printer.branch] at shallow
  rw [Branch.leaves, List.forall_mem_append] at portable
  dsimp only at portable
  have condition := readsExprs n condition portable.1 (by omega)
  have body := reads.block portable.2 (by omega)
  refine ⟨.object (by simp [condition.plain, body.plain]), ?_⟩
  exact bind_some condition.read (bind_some body.read rfl)

theorem next_caseClause {c : CaseClause} (portable : ∀ leaf ∈ c.leaves, leaf.Portable)
    (shallow : (Printer.caseClause c).nesting < n + 1) :
    Returns (Reader.caseClause? (n + 1)) (Printer.caseClause c) c := by
  obtain ⟨tests, body⟩ := c
  simp [Printer.caseClause] at shallow
  rw [CaseClause.leaves, List.forall_mem_append] at portable
  dsimp only at portable
  have tests := returns_parts portable.1 (by omega) fun _ => returns_caseTest (n := n)
  have body := reads.block portable.2 (by omega)
  refine ⟨.object (by simp [tests.plain, body.plain]), ?_⟩
  exact bind_some tests.read (bind_some body.read rfl)

theorem next_procedure {decl : Procedure} (portable : ∀ leaf ∈ decl.leaves, leaf.Portable)
    (shallow : (Printer.procedure decl).nesting < n + 1) :
    Returns (Reader.procedure? (n + 1)) (Printer.procedure decl) decl := by
  obtain ⟨x, k, a, isDefault, params, body⟩ := decl
  simp [Printer.procedure] at shallow
  rw [Procedure.leaves, List.forall_mem_append, List.forall_mem_cons, List.forall_mem_map]
    at portable
  obtain ⟨⟨folded, names⟩, portable⟩ := portable
  have x := Returns.name folded
  have k : Returns (Reader.oneOf? Reader.procedureKinds) (.string (Printer.procedureKind k)) k := by
    cases k <;> exact .choice rfl
  have a := returns_access a
  have params : Returns (Json.list? Reader.param?) (.array (params.map Printer.param)) params :=
    .list fun param member => returns_param (names param member)
  have body := reads.block portable (by omega)
  refine ⟨.object (by simp [x.plain, k.plain, a.plain, Plain.bool, params.plain, body.plain]), ?_⟩
  exact bind_some x.read (bind_some k.read (bind_some a.read (bind_some rfl
    (bind_some params.read (bind_some body.read rfl)))))

theorem next_classDecl {decl : ClassDecl} (portable : ∀ leaf ∈ decl.leaves, leaf.Portable)
    (shallow : (Printer.classDecl decl).nesting < n + 1) :
    Returns (Reader.classDecl? (n + 1)) (Printer.classDecl decl) decl := by
  obtain ⟨x, members⟩ := decl
  simp [Printer.classDecl] at shallow
  rw [ClassDecl.leaves, memberLeaves_eq] at portable
  rw [members_eq] at shallow
  have members := returns_parts portable (by omega) reads.member
  rw [← members_eq] at members
  refine ⟨.object (by simp [Plain.string, members.plain]), ?_⟩
  exact bind_some rfl (bind_some members.read rfl)

theorem next_member {m : ClassMember} (portable : ∀ leaf ∈ m.leaves, leaf.Portable)
    (shallow : (Printer.member m).nesting < n + 1) :
    Returns (Reader.classMember? (n + 1)) (Printer.member m) m := by
  cases m with
  | field a decl =>
    simp [Printer.member] at shallow
    have a := returns_access a
    have decl := returns_varDecl (n := n) portable (by omega)
    refine ⟨Json.plain_tag (.object (by simp [a.plain, decl.plain])), ?_⟩
    exact bind_some a.read (bind_some decl.read rfl)
  | procedure decl =>
    simp [Printer.member] at shallow
    have decl := reads.procedure decl portable (by omega)
    exact ⟨Json.plain_tag decl.plain, congrArg (Option.map ClassMember.procedure) decl.read⟩

theorem next_kind {k : StmtKind} (portable : ∀ leaf ∈ k.leaves, leaf.Portable)
    (shallow : (Printer.kind k).nesting < n + 1) :
    Returns (Reader.kind? (n + 1)) (Printer.kind k) k := by
  cases k with
  | call e =>
    simp [Printer.kind] at shallow
    rw [StmtKind.leaves] at portable
    have e := readsExprs n e portable (by omega)
    exact ⟨Json.plain_tag e.plain, congrArg (Option.map StmtKind.call) e.read⟩
  | assign target value set =>
    simp [Printer.kind] at shallow
    rw [StmtKind.leaves, List.forall_mem_append] at portable
    have target := readsExprs n target portable.1 (by omega)
    have value := readsExprs n value portable.2 (by omega)
    refine ⟨Json.plain_tag (.object (by simp [target.plain, value.plain, Plain.bool])), ?_⟩
    exact bind_some target.read (bind_some value.read rfl)
  | dim decls =>
    simp [Printer.kind] at shallow
    rw [StmtKind.leaves] at portable
    have decls := returns_parts portable (by omega) fun _ => returns_varDecl (n := n)
    exact ⟨Json.plain_tag decls.plain, congrArg (Option.map StmtKind.dim) decls.read⟩
  | redim preserve decls =>
    simp [Printer.kind] at shallow
    rw [StmtKind.leaves] at portable
    have decls := returns_parts portable (by omega) fun _ => returns_varDecl (n := n)
    refine ⟨Json.plain_tag (.object (by simp [Plain.bool, decls.plain])), ?_⟩
    exact bind_some rfl (bind_some decls.read rfl)
  | constants decls =>
    simp [Printer.kind] at shallow
    rw [StmtKind.leaves] at portable
    have decls := returns_parts portable (by omega) fun _ => returns_constDecl (n := n)
    exact ⟨Json.plain_tag decls.plain, congrArg (Option.map StmtKind.constants) decls.read⟩
  | erase names =>
    rw [StmtKind.leaves, List.forall_mem_map] at portable
    have names : Returns (Json.list? Reader.name?) (.array (names.map Printer.name)) names :=
      .list fun x member => .name (portable x member)
    exact ⟨Json.plain_tag names.plain, congrArg (Option.map StmtKind.erase) names.read⟩
  | choose branches otherwise =>
    simp [Printer.kind, branches_eq] at shallow
    rw [StmtKind.leaves, List.forall_mem_append, branchLeaves_eq] at portable
    have branches := returns_parts portable.1 (by omega) reads.branch
    have otherwise := reads.otherwise portable.2 (by omega)
    rw [← branches_eq] at branches
    refine ⟨Json.plain_tag (.object (by simp [branches.plain, otherwise.plain])), ?_⟩
    exact bind_some branches.read (bind_some otherwise.read rfl)
  | forRange counter start stop step body =>
    simp [Printer.kind] at shallow
    simp only [StmtKind.leaves, List.forall_mem_append, List.forall_mem_cons] at portable
    obtain ⟨⟨⟨⟨folded, portable₁⟩, portable₂⟩, portable₃⟩, portable₄⟩ := portable
    have counter := Returns.name folded
    have start := readsExprs n start portable₁ (by omega)
    have stop := readsExprs n stop portable₂ (by omega)
    have step := returns_step (n := n) portable₃ (by omega)
    have body := reads.block portable₄ (by omega)
    refine ⟨Json.plain_tag (.object (by
      simp [counter.plain, start.plain, stop.plain, step.plain, body.plain])), ?_⟩
    exact bind_some counter.read (bind_some start.read (bind_some stop.read
      (bind_some step.read (bind_some body.read rfl))))
  | forEach element group body =>
    simp [Printer.kind] at shallow
    rw [StmtKind.leaves, List.forall_mem_append, List.forall_mem_cons] at portable
    have element := Returns.name portable.1.1
    have group := readsExprs n group portable.1.2 (by omega)
    have body := reads.block portable.2 (by omega)
    refine ⟨Json.plain_tag (.object (by simp [element.plain, group.plain, body.plain])), ?_⟩
    exact bind_some element.read (bind_some group.read (bind_some body.read rfl))
  | doLoop condition body =>
    simp [Printer.kind] at shallow
    rw [StmtKind.leaves, List.forall_mem_append] at portable
    have condition : Returns (Json.option? (Reader.loopCondition? n))
        (Printer.optional Printer.loopCondition condition) condition := by
      refine .option (fun c given => ?_) fun _ => nofun
      obtain rfl : condition = some c := given
      simp [Printer.optional] at shallow
      exact returns_loopCondition (by simpa using portable.1) (by omega)
    have body := reads.block portable.2 (by omega)
    refine ⟨Json.plain_tag (.object (by simp [condition.plain, body.plain])), ?_⟩
    exact bind_some condition.read (bind_some body.read rfl)
  | whileLoop condition body =>
    simp [Printer.kind] at shallow
    rw [StmtKind.leaves, List.forall_mem_append] at portable
    have condition := readsExprs n condition portable.1 (by omega)
    have body := reads.block portable.2 (by omega)
    refine ⟨Json.plain_tag (.object (by simp [condition.plain, body.plain])), ?_⟩
    exact bind_some condition.read (bind_some body.read rfl)
  | select subject cases otherwise =>
    simp [Printer.kind, caseClauses_eq] at shallow
    rw [StmtKind.leaves, List.forall_mem_append, List.forall_mem_append, caseLeaves_eq] at portable
    have subject := readsExprs n subject portable.1.1 (by omega)
    have cases := returns_parts portable.1.2 (by omega) reads.caseClause
    have otherwise := reads.otherwise portable.2 (by omega)
    rw [← caseClauses_eq] at cases
    refine ⟨Json.plain_tag (.object (by simp [subject.plain, cases.plain, otherwise.plain])), ?_⟩
    exact bind_some subject.read (bind_some cases.read (bind_some otherwise.read rfl))
  | withBlock object body =>
    simp [Printer.kind] at shallow
    rw [StmtKind.leaves, List.forall_mem_append] at portable
    have object := readsExprs n object portable.1 (by omega)
    have body := reads.block portable.2 (by omega)
    refine ⟨Json.plain_tag (.object (by simp [object.plain, body.plain])), ?_⟩
    exact bind_some object.read (bind_some body.read rfl)
  | exit k =>
    exact ⟨Json.plain_tag (.string _), by cases k <;> rfl⟩
  | procedure decl =>
    simp [Printer.kind] at shallow
    rw [StmtKind.leaves] at portable
    have decl := reads.procedure decl portable (by omega)
    exact ⟨Json.plain_tag decl.plain, congrArg (Option.map StmtKind.procedure) decl.read⟩
  | classDef decl =>
    simp [Printer.kind] at shallow
    rw [StmtKind.leaves] at portable
    have decl := reads.classDecl decl portable (by omega)
    exact ⟨Json.plain_tag decl.plain, congrArg (Option.map StmtKind.classDef) decl.read⟩
  | onError mode => exact ⟨Json.plain_tag (.string _), by cases mode <;> rfl⟩
  | optionExplicit => exact ⟨.string _, rfl⟩
  | optionCompare mode => exact ⟨Json.plain_tag (.string _), by cases mode <;> rfl⟩

end ReadsStmts

theorem readsStmts (n : Nat) : ReadsStmts n := by
  induction n with
  | zero => constructor <;> exact fun _ _ shallow => absurd shallow (Nat.not_lt_zero _)
  | succ n ih =>
    exact ⟨fun _ => ih.next_stmt, fun _ => ih.next_kind, fun _ => ih.next_branch,
      fun _ => ih.next_caseClause, fun _ => ih.next_procedure, fun _ => ih.next_classDecl,
      fun _ => ih.next_member⟩

/-! ### Documents -/

theorem returns_piece {s : Section} (portable : ∀ leaf ∈ s.leaves, leaf.Portable)
    (shallow : (Printer.piece s).nesting < Reader.nesting) :
    Returns Reader.section? (Printer.piece s) s := by
  cases s with
  | markup text => exact ⟨Json.plain_tag (.string text), rfl⟩
  | code program =>
    simp [Printer.piece] at shallow
    have program := (readsStmts Reader.nesting).block portable (by omega)
    exact ⟨Json.plain_tag program.plain, congrArg (Option.map Section.code) program.read⟩
  | output e r =>
    simp [Printer.piece] at shallow
    rw [Section.leaves, List.forall_mem_append] at portable
    have e := readsExprs Reader.nesting e portable.1 (by omega)
    have r := returns_range portable.2
    refine ⟨Json.plain_tag (.array (by simp [e.plain, r.plain])), ?_⟩
    exact bind_some e.read (bind_some r.read rfl)

theorem returns_document {d : Document} (portable : ∀ leaf ∈ d.leaves, leaf.Portable)
    (shallow : d.toJson.nesting < Reader.nesting) :
    Returns Reader.document? d.toJson d := by
  obtain ⟨source, sections⟩ := d
  rw [Document.leaves] at portable
  dsimp only at portable
  simp [Document.toJson] at shallow
  have source : Returns (Json.option? Json.text?) (Printer.optional .string source) source :=
    .option (fun text _ => .string text) fun _ => nofun
  have sections := returns_parts portable (by omega) fun _ => returns_piece
  refine ⟨.object (by simp [source.plain, sections.plain]), ?_⟩
  exact bind_some source.read (bind_some sections.read rfl)

end Code

/-- A document is read back from its own text. It may be built in any way from any nodes, with
arbitrary texts and words, as long as it has no double, its names are folded, its places are within
the range of places, and its text nests at most as deep as a reader follows. -/
theorem document_read_back {d : Document} (exact : ∀ x, Leaf.literal (.float x) ∉ d.leaves)
    (folded : ∀ n, Leaf.name n ∈ d.leaves → Name.ofText n.text = n)
    (fits : ∀ p, Leaf.position p ∈ d.leaves → p.line < UInt32.size ∧ p.column < UInt64.size)
    (shallow : d.toJson.nesting ≤ 127) : Document.ofText? d.toText = some d := by
  have portable : ∀ leaf ∈ d.leaves, leaf.Portable := by
    intro leaf member
    cases leaf with
    | literal value =>
      rintro x rfl
      exact exact x member
    | name n => exact folded n member
    | position p => exact fits p member
  have bounded : d.toJson.nesting < Code.Reader.nesting := Nat.lt_of_le_of_lt shallow (by decide)
  have returns := Code.returns_document portable bounded
  rw [Document.ofText?, Document.toText, Json.parse?_pretty returns.plain shallow]
  exact returns.read

/-- `<p>`, then a function in a loop of a class, then `= "é"`. -/
def Document.sample : Document where
  source := some "sample.asp"
  sections := [
    .markup "<p>\n\t\"",
    .code [
      ⟨.classDef ⟨"Counter", [
        .field .instanceOnly ⟨⟨"count"⟩, some [.literal (.integer (-3))]⟩,
        .procedure ⟨⟨"next"⟩, .function, .everyone, true, [{ name := ⟨"by"⟩, byVal := true }], [
          ⟨.forRange ⟨"i"⟩ (.literal (.integer 1)) (.ident ⟨"by"⟩) none [
            ⟨.exit .forLoop, {}⟩], {}⟩,
          ⟨.select (.withMember ⟨"x"⟩) [⟨[.is .lt .me, .range .missing (.new ⟨"counter"⟩)], []⟩]
            (some []), {}⟩]⟩]⟩, {}⟩,
      ⟨.doLoop (some ⟨.untilTrue, .post, .unary .not (.literal .nothing)⟩) [
        ⟨.onError .resumeNext, {}⟩], ⟨⟨3, 1⟩, ⟨4, 5⟩⟩⟩],
    .output (.literal (.string "é\x01")) (.line 7)]

theorem sample_read_back : Document.sample.toJson.nesting ≤ 127 ∧
    (∀ leaf ∈ Document.sample.leaves, leaf.Portable) ∧
    Document.ofText? Document.sample.toText = some Document.sample := by
  have shallow : Document.sample.toJson.nesting ≤ 127 := by decide
  have portable : ∀ leaf ∈ Document.sample.leaves, leaf.Portable := by
    simp [Document.sample, Document.leaves, Section.leaves, blockLeaves, Stmt.leaves,
      StmtKind.leaves, ClassDecl.leaves, memberLeaves, VarDecl.leaves, Procedure.leaves, exprLeaves,
      Expr.leaves, caseLeaves, CaseTest.leaves, otherwiseLeaves, LoopCondition.leaves,
      Range.leaves, Range.line, Leaf.Portable]
    decide
  exact ⟨shallow, portable, document_read_back (fun x member => portable _ member x rfl)
    (fun _ => portable _) (fun _ => portable _) shallow⟩

end ServerScript
