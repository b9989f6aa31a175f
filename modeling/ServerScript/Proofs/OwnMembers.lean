import ServerScript.Proofs.Approximation
import ServerScript.Proofs.ConstantContents
import ServerScript.Proofs.Locals
import ServerScript.Proofs.PrivateMembers

/-! The members of the current instance, by their bare name and through `Me`. A bare name is looked
up in the store of the instance first and in its class after that, a member of `Me` in the class
alone. Since the store has the fields that the class declares, both find the same member. They
treat it alike except where a bare name stands for more than the member: one that holds a stored
procedure calls it, and one that cannot be assigned makes a global. -/
namespace ServerScript

variable {m m' : Machine} {o : InstanceRef} {name : Name}

/-- A name that stands for a member of the current instance: the class of the instance declares it,
and it is neither a constant nor a variable of a running procedure. -/
structure Machine.OwnMember (m : Machine) (o : InstanceRef) (name : Name) : Prop where
  me : m.scopes.me = some o
  noConstant : m.scopes.constant? name = none
  noVariable : m.scopes.frameVariable? name = none
  declared : (o.cls.field? name).isSome ∨ o.cls.hasProcedure name

theorem Scopes.KeepsNames.frameVariable?_eq_none {s s' : Scopes} (keeps : s.KeepsNames s')
    (free : s.frameVariable? name = none) : s'.frameVariable? name = none := by
  rw [← Option.not_isSome_iff_eq_none, frameVariable?_isSome_iff] at free ⊢
  rwa [keeps.frames.findIdx?_hasLocal]

namespace Machine.OwnMember

theorem of_keepsVariables (own : m.OwnMember o name) (keeps : m.KeepsVariables m') :
    m'.OwnMember o name where
  me := keeps.me.trans own.me
  noConstant := (keeps.names.constant? name).trans own.noConstant
  noVariable := keeps.names.frameVariable?_eq_none own.noVariable
  declared := own.declared

theorem resolve_field (own : m.OwnMember o name) {v : Value}
    (stored : m.heap.field? o.cell name = some v) : m.scopes.resolve m.heap name = .value v := by
  have member : m.scopes.member? m.heap name = some (.value v) := by
    rw [Scopes.member?, own.me]
    dsimp only
    rw [stored]
  rw [Scopes.resolve, own.noConstant, own.noVariable, member]

theorem resolve_procedure (own : m.OwnMember o name) (declared : o.cls.hasProcedure name)
    (noField : m.heap.field? o.cell name = none) : m.scopes.resolve m.heap name = .member o := by
  have member : m.scopes.member? m.heap name = some (.member o) := by
    rw [Scopes.member?, own.me]
    dsimp only
    rw [noField, if_pos declared]
  rw [Scopes.resolve, own.noConstant, own.noVariable, member]

end Machine.OwnMember

theorem Heap.Shapes.declares {h : Heap} (shapes : h.Shapes o.cell o.cls) {v : Value}
    (stored : h.field? o.cell name = some v) : (o.cls.field? name).isSome := by
  rw [← shapes.isSome_field?, stored]
  rfl

theorem Heap.Shapes.field?_eq_none_iff {h : Heap} (shapes : h.Shapes o.cell o.cls) :
    h.field? o.cell name = none ↔ o.cls.field? name = none := by
  rw [← Option.not_isSome_iff_eq_none, shapes.isSome_field? name, Option.not_isSome_iff_eq_none]

namespace Interpreter

theorem exec_me (k : Nat) (isMe : m.scopes.me = some o) :
    ((within (k + 1)).expr .me).exec m = (.ok o.value, m) := by
  change (evalExpr (within k) .me).exec m = _
  rw [evalExpr, Run.exec_get_bind, isMe]
  rfl

theorem exec_reachOf_me (isMe : m.scopes.me = some o) :
    (Run.reachOf o).exec m = (.ok .inside, m) := by
  rw [Run.reachOf, Run.exec_get_bind, isMe, Option.any_some, beq_self_eq_true, if_pos rfl]
  rfl

theorem exec_evalExpr_member_me (k : Nat) (isMe : m.scopes.me = some o) :
    (evalExpr (within (k + 1)) (.member .me name)).exec m =
      (readMember (within (k + 1)) o name .inside).exec m := by
  rw [evalExpr, Run.exec_bind_ok (exec_me k isMe), InstanceRef.value, readOn,
    Run.exec_bind_ok (exec_reachOf_me isMe)]

theorem exec_evalExpr_call_me (k : Nat) (isMe : m.scopes.me = some o) (args : List Expr) :
    (evalExpr (within (k + 1)) (.call (.member .me name) args)).exec m =
      (arguments (within (k + 1)) args >>= fun given =>
        callMember (within (k + 1)) o name given .inside).exec m := by
  rw [evalExpr, evalCall, Run.exec_bind_ok (exec_me k isMe), InstanceRef.value, callOn]
  refine Run.exec_bind_congr fun given m' done => ?_
  have keeps := keepsVariables_arguments (k + 1) args m
  rw [done] at keeps
  rw [Run.exec_bind_ok (exec_reachOf_me (keeps.me.trans isMe))]

theorem exec_assignTo_member_me (k : Nat) (isMe : m.scopes.me = some o) (v : Value) (set : Bool) :
    (assignTo (within (k + 1)) (.member .me name) v set).exec m =
      (writeMember (within (k + 1)) o name [] v set .inside).exec m := by
  rw [assignTo, Run.exec_bind_ok (exec_me k isMe), InstanceRef.value, assignOn,
    Run.exec_bind_ok (exec_reachOf_me isMe)]

variable {ev : Interpreter}

theorem exec_readName_procedure {id : Nat} {decl : Procedure}
    (found : m.scopes.resolve m.heap name = .value (.callable id (.procedure decl))) :
    (readName ev name).exec m = (callProcedure ev decl none {}).exec m := by
  have resolved : (Run.resolve name).exec m = (.ok (.value (.callable id (.procedure decl))), m) :=
    congrArg (fun r => (Except.ok r, m)) found
  rw [readName, Run.exec_bind_ok resolved]

theorem exec_readName_member (found : m.scopes.resolve m.heap name = .member o) :
    (readName ev name).exec m = (readMember ev o name .inside).exec m := by
  have resolved : (Run.resolve name).exec m = (.ok (.member o), m) :=
    congrArg (fun r => (Except.ok r, m)) found
  rw [readName, Run.exec_bind_ok resolved]

theorem exec_callFound_member (found : m.scopes.resolve m.heap name = .member o)
    (args : List Expr) :
    (callFound ev name args).exec m =
      (arguments ev args >>= fun given => callMember ev o name given .inside).exec m := by
  have resolved : (Run.resolve name).exec m = (.ok (.member o), m) :=
    congrArg (fun r => (Except.ok r, m)) found
  rw [callFound, Run.exec_bind_ok resolved]

theorem exec_readMember_field (declared : (o.cls.field? name).isSome) {v : Value}
    (stored : m.heap.field? o.cell name = some v) :
    (readMember ev o name .inside).exec m = (.ok v, m) := by
  obtain ⟨field, found⟩ := Option.isSome_iff_exists.mp declared
  rw [readMember, found]
  dsimp only
  rw [Reach.allows, if_pos rfl, fieldValue, Run.exec_get_bind, stored]
  rfl

theorem issues_method {ev : Interpreter} {object : Expr} {decl : Procedure} {reach : Reach}
    {range : Range} {rest : Block} (going : m.control.halt = none)
    (early : Run.checkDeadline.exec m = (.ok ⟨⟩, m'))
    (found : (ev.expr object).exec m' = (.ok o.value, m'))
    (reaches : (Run.reachOf o).exec m' = (.ok reach, m')) (spelled : name.isBlank = false)
    (method : method? o.cls name reach = some decl) :
    ev.Issues (.block (⟨.call (.call (.member object name) []), range⟩ :: rest)) m
      (.invoke decl (some o) []) m' := by
  refine Stop.exists_shows (fun stop final => ?_) _
  let refusing := ev.refusing (.invoke decl (some o) []) m' stop
  have object' : (refusing.expr object).exec m' = (.ok o.value, m') := by
    change (refusing.run (.expr object)).exec m' = _
    exact (exec_refusing (by rintro ⟨⟨⟩, -⟩)).trans found
  have refused : (callWith refusing decl (some o) []).exec m' = (.error stop, m') := by
    rw [callWith, List.length_nil, if_neg (Nat.not_lt_zero _)]
    exact exec_refusing_self ev (.invoke decl (some o) []) m' stop
  have called : (callMember refusing o name {} reach).exec m' = (.error stop, m') := by
    rw [callMember, memberName_of_not_blank o.cls spelled, pure_bind, memberCall?, method]
    exact Run.exec_bind_error refused
  have call : (evalCall refusing (.member object name) []).exec m' = (.error stop, m') := by
    rw [evalCall, Run.exec_bind_ok object', InstanceRef.value, callOn]
    exact (Run.exec_bind_ok reaches).trans called
  have stmt : (execKind refusing (.call (.call (.member object name) []))).exec m' =
      (.error stop, m') := by
    rw [execKind, normally, execCall, Run.discard_eq, bind_assoc]
    exact Run.exec_bind_error call
  exact congrArg Prod.fst
    (Run.exec_bind_error (exec_execStmt_of_final final going early stmt))

end Interpreter

/-- While a function runs, its innermost frame has the variable of its result. -/
def Machine.OwnsResult (m : Machine) : Prop :=
  ∀ decl, m.procedure = some decl → decl.kind.returnsValue → m.scopes.HasLocal decl.name

theorem Machine.OwnsResult.not_running (owns : m.OwnsResult)
    (free : m.scopes.frameVariable? name = none) (decl : Procedure)
    (running : m.procedure = some decl) (same : decl.name = name) :
    decl.kind.returnsValue = false := by
  by_contra returns
  obtain ⟨scope, rest, frames, binds⟩ := owns decl running (by simpa using returns)
  rw [Scopes.frameVariable?, List.findSome?_eq_none_iff] at free
  have none := free scope (frames ▸ List.mem_cons_self)
  rw [same, Scope.Binds, none] at binds
  cases binds

namespace Stage

theorem Reachable.ownsResult {s : Stage} (reachable : s.Reachable) : s.state.OwnsResult := by
  intro decl running returns
  rw [(reachable.fit default).current] at running
  refine reachable.hasLocal_of_opened running ?_
  simp [Procedure.opened, returns]

theorem Reachable.ownsResult_run {n : Nat} {chain : List Procedure} {task : Task}
    (reachable : Stage.Reachable ⟨n, chain, task, m⟩) :
    (((Interpreter.within n).run task).exec m).2.OwnsResult := by
  intro decl running returns
  have restores : m.Restores (((Interpreter.within n).run task).exec m).2 :=
    (frameRegime False).step_run n chain False.elim (by cases task <;> trivial)
  have has := reachable.ownsResult decl (restores.procedure ▸ running) returns
  have fits : (shieldRegime decl.name m.scopes.pop).fitsTask chain task := by
    cases task <;> trivial
  obtain ⟨shields, depth⟩ :=
    (shieldRegime decl.name m.scopes.pop).step_run n chain has.shields fits
  exact shields.hasLocal (depth.trans has.depth_pop)

end Stage

namespace Script

theorem Visits.ownsResult {n : Nat} {program : Block} (visits : Visits n program m m')
    (rest : m.AtRest) : m'.OwnsResult := by
  have start := (Interpreter.restores_hoist m program).atRest rest
  exact Stage.Passes.induction (P := Stage.Reachable) visits (.start start)
    (fun before leads => before.step leads)
    (fun reachable => reachable.ownsResult) fun reachable => reachable.ownsResult_run

end Script

namespace Meter

def make : Name := ⟨"make"⟩

def level : Name := ⟨"level"⟩

def touch : Name := ⟨"touch"⟩

def x : Name := ⟨"x"⟩

/-- `Function make: End Function`, which has the result Empty. -/
def stored : Procedure := ⟨make, .function, .everyone, false, [], []⟩

/-- `Function make: Function make: End Function: End Function`, which has the inner one as its
result. -/
def makeDecl : Procedure := ⟨make, .function, .everyone, false, [], [⟨.procedure stored, {}⟩]⟩

/-- `level = make()`. -/
def fill : Stmt := ⟨.assign (.ident level) (.call (.ident make) []) false, {}⟩

/-- `Public Sub touch: level = make(): End Sub`. -/
def touchDecl : Procedure := ⟨touch, .sub, .everyone, false, [], [fill]⟩

/-- `Class Meter: Public level` and the sub. -/
def source : ClassDecl :=
  ⟨"Meter", [.field .everyone { name := level }, .procedure touchDecl]⟩

/-- `Set x = New Meter`. -/
def build : Stmt := ⟨.assign (.ident x) (.new ⟨"meter"⟩) true, {}⟩

/-- `x.touch()`. -/
def call : Stmt := ⟨.call (.call (.member (.ident x) touch) []), {}⟩

/-- The declarations of the function and the class, and then the two statements. -/
def program : Block := [⟨.procedure makeDecl, {}⟩, ⟨.classDef source, {}⟩, build, call]

def meter : InstanceRef where
  cell := 0
  cls :=
    { name := "Meter"
      fields := [(level, ⟨.everyone, none⟩)]
      procedures := [(touch, touchDecl)] }

/-- A state of the run at top level: the cells of the two declarations, what has been assigned, the
instances, and the looks at the clock so far. -/
def outer (function cls : Nat) (assigned : Frame) (instances : Array InstanceCell)
    (nextView elapsed : Nat) : Machine :=
  { SelfAssignment.start with
    scopes := { SelfAssignment.start.scopes with
      globals := SelfAssignment.start.scopes.globals ++
        [(make, .callable function (.procedure makeDecl)),
          (⟨"meter"⟩, .callable cls (.cls meter.cls))] ++ assigned }
    heap := { instances, nextView }
    control := { elapsed } }

def built (elapsed : Nat) : Machine :=
  outer 3 4 [(x, meter.value)] #[{ fields := [(level, .empty)] }] 5 elapsed

/-- The state at the end of the body of the sub: the field has the inner function. -/
def touched : Machine :=
  Interpreter.enter touchDecl (some meter) <|
    outer 3 4 [(x, meter.value)] #[{ fields := [(level, .callable 5 (.procedure stored))] }] 6 6

theorem visits_touched : Script.Visits 6 program SelfAssignment.start touched := by
  have hoisted : ((Interpreter.hoist program).exec SelfAssignment.start).2 =
      outer 1 2 [] #[] 3 0 := rfl
  have first : ((Interpreter.within 5).execStmt ⟨.procedure makeDecl, {}⟩).exec
      (outer 1 2 [] #[] 3 0) = (.ok .normal, outer 3 2 [] #[] 4 1) := rfl
  have second : ((Interpreter.within 5).execStmt ⟨.classDef source, {}⟩).exec
      (outer 3 2 [] #[] 4 1) = (.ok .normal, outer 3 4 [] #[] 5 2) := rfl
  have third : ((Interpreter.within 5).execStmt build).exec (outer 3 4 [] #[] 5 2) =
      (.ok .normal, built 3) := rfl
  have called : (Interpreter.within 5).Issues (.block [call]) (built 3)
      (.invoke touchDecl (some meter) []) (built 4) :=
    Interpreter.issues_method rfl rfl rfl rfl rfl rfl
  have opened : (Interpreter.openFrame touchDecl []).exec
      (Interpreter.enter touchDecl (some meter) (built 4)) =
      (.ok ⟨⟩, Interpreter.enter touchDecl (some meter) (built 4)) := rfl
  have filled : ((Interpreter.within 3).execStmt fill).exec
      (Interpreter.enter touchDecl (some meter) (built 4)) = (.ok .normal, touched) := rfl
  have toCall : Relation.ReflTransGen Stage.Leads ⟨6, [], .block program, outer 1 2 [] #[] 3 0⟩
      ⟨6, [], .block [call], built 3⟩ :=
    .tail (.tail (.tail .refl (.next first)) (.next second)) (.next third)
  have entered := toCall.tail (.issue called)
    |>.tail (.issue ((Interpreter.within 4).issues_body (by decide) opened))
  rw [Script.Visits, hoisted]
  exact ⟨_, entered.tail (.next filled), .inl rfl⟩

theorem own_level : touched.OwnMember meter level := ⟨rfl, rfl, rfl, .inl rfl⟩

theorem own_touch : touched.OwnMember meter touch := ⟨rfl, rfl, rfl, .inr rfl⟩

end Meter

/-- A bare name and a member of `Me` are read alike. In every state that a run goes through, a
member of the current instance reads the same by both, with the same end and the same state after
it, unless it is a field that holds a stored procedure: the bare name calls that procedure, on no
instance, and the member of `Me` is the procedure itself. A call of a sub, a function or a property
is the same by both whatever the arguments are. -/
theorem own_members_read_alike {m₀ : Machine} {n : Nat} {program : Block} (rest : m₀.AtRest)
    (shaped : m₀.Shaped) (visits : Script.Visits n program m₀ m) (own : m.OwnMember o name)
    (k : Nat) :
    ((∀ id decl, m.heap.field? o.cell name ≠ some (.callable id (.procedure decl))) →
      ((Interpreter.within (k + 1)).evalExpr (.ident name)).exec m =
        ((Interpreter.within (k + 1)).evalExpr (.member .me name)).exec m) ∧
    (∀ id decl, m.heap.field? o.cell name = some (.callable id (.procedure decl)) →
      ((Interpreter.within (k + 1)).evalExpr (.ident name)).exec m =
          ((Interpreter.within (k + 1)).callProcedure decl none {}).exec m ∧
        ((Interpreter.within (k + 1)).evalExpr (.member .me name)).exec m =
          (.ok (.callable id (.procedure decl)), m)) ∧
    (o.cls.hasProcedure name → ∀ args,
      ((Interpreter.within (k + 1)).evalExpr (.call (.ident name) args)).exec m =
        ((Interpreter.within (k + 1)).evalExpr (.call (.member .me name) args)).exec m) := by
  have shapes : m.heap.Shapes o.cell o.cls := (visits.shaped shaped).scopes.me o own.me
  refine ⟨fun uncalled => ?_, fun id decl stored => ?_, fun declared args => ?_⟩
  · rw [Interpreter.exec_evalExpr_member_me k own.me, Interpreter.evalExpr]
    cases stored : m.heap.field? o.cell name with
    | some v =>
      rw [Interpreter.exec_readMember_field (shapes.declares stored) stored]
      refine Interpreter.exec_readName (own.resolve_field stored) fun id decl same => ?_
      exact uncalled id decl (same ▸ stored)
    | none =>
      have declared : o.cls.hasProcedure name := by
        refine own.declared.resolve_left ?_
        rw [shapes.field?_eq_none_iff.mp stored]
        exact Bool.false_ne_true
      exact Interpreter.exec_readName_member (own.resolve_procedure declared stored)
  · rw [Interpreter.exec_evalExpr_member_me k own.me, Interpreter.evalExpr,
      Interpreter.exec_readMember_field (shapes.declares stored) stored]
    exact ⟨Interpreter.exec_readName_procedure (own.resolve_field stored), rfl⟩
  · have noField := shapes.field?_eq_none_iff.mpr (shapes.coherent.fields name declared)
    have other := (visits.ownsResult rest).not_running own.noVariable
    rw [Interpreter.exec_evalExpr_call_me k own.me, Interpreter.evalExpr, Interpreter.evalCall,
      Interpreter.exec_callName args other,
      Interpreter.exec_callFound_member (own.resolve_procedure declared noField)]

open Meter SelfAssignment in
theorem touch_read_alike :
    start.AtRest ∧ start.Shaped ∧ Script.Visits 6 program start touched ∧
      touched.OwnMember meter touch ∧
      ((Interpreter.within 6).evalExpr (.ident touch)).exec touched =
        ((Interpreter.within 6).evalExpr (.member .me touch)).exec touched ∧
      ((Interpreter.within 6).evalExpr (.call (.ident touch) [])).exec touched =
        ((Interpreter.within 6).evalExpr (.call (.member .me touch) [])).exec touched := by
  have rest : start.AtRest := Host.atRest_machine _ _
  obtain ⟨read, -, called⟩ := own_members_read_alike rest shaped_start visits_touched own_touch 5
  exact ⟨rest, shaped_start, visits_touched, own_touch, read nofun, called rfl []⟩

open Meter SelfAssignment in
/-- The field that holds a function is not read alike: `level` is the result of a call of that
function, and `Me.level` is the function. -/
theorem level_read_apart :
    start.AtRest ∧ Script.Visits 6 program start touched ∧ touched.OwnMember meter level ∧
      (((Interpreter.within 6).evalExpr (.ident level)).exec touched).1 = .ok .empty ∧
      (((Interpreter.within 6).evalExpr (.member .me level)).exec touched).1 =
        .ok (.callable 5 (.procedure stored)) :=
  ⟨Host.atRest_machine _ _, visits_touched, own_level, rfl, rfl⟩

/-- A name that an instance can assign: a field, or a property with a write accessor. -/
def ClassDef.IsWritable (c : ClassDef) (name : Name) : Prop :=
  (c.field? name).isSome ∨ c.hasWriter name

theorem Machine.OwnMember.assign_eq (own : m.OwnMember o name) (v : Value) :
    m.scopes.assign m.heap name v =
      if (m.heap.field? o.cell name).isSome then
        .ok (m.scopes, m.heap.setField o.cell name v, .done)
      else if o.cls.hasWriter name then .ok (m.scopes, m.heap, .accessor o)
      else .ok (m.scopes.setGlobal name v, m.heap, .done) := by
  rw [Scopes.assign, Scopes.isConstant, own.noConstant, own.noVariable, own.me]
  rfl

namespace Interpreter

variable {ev : Interpreter}

theorem exec_assignName_field (own : m.OwnMember o name)
    (stored : (m.heap.field? o.cell name).isSome) (v : Value) (set : Bool) :
    (assignName ev name v set).exec m =
      (.ok ⟨⟩, { m with heap := m.heap.setField o.cell name v }) := by
  rw [assignName, Run.exec_bind, Run.assignWith, Run.exec_get_bind, own.assign_eq, if_pos stored]
  rfl

theorem exec_assignName_accessor (own : m.OwnMember o name)
    (noField : m.heap.field? o.cell name = none) (writer : o.cls.hasWriter name) (v : Value)
    (set : Bool) :
    (assignName ev name v set).exec m = (writeMember ev o name [] v set .inside).exec m := by
  rw [assignName, Run.exec_bind, Run.assignWith, Run.exec_get_bind, own.assign_eq, noField,
    Option.isSome_none, if_neg Bool.false_ne_true, if_pos writer]
  rfl

theorem exec_assignName_global (own : m.OwnMember o name)
    (noField : m.heap.field? o.cell name = none) (noWriter : ¬o.cls.hasWriter name) (v : Value)
    (set : Bool) :
    (assignName ev name v set).exec m =
      (.ok ⟨⟩, { m with scopes := m.scopes.setGlobal name v }) := by
  rw [assignName, Run.exec_bind, Run.assignWith, Run.exec_get_bind, own.assign_eq, noField,
    Option.isSome_none, if_neg Bool.false_ne_true, if_neg noWriter]
  rfl

theorem exec_writeMember_field (spelled : name.isBlank = false)
    (declared : (o.cls.field? name).isSome) (v : Value) (set : Bool) :
    (writeMember ev o name [] v set .inside).exec m =
      (.ok ⟨⟩, { m with heap := m.heap.setField o.cell name v }) := by
  obtain ⟨field, found⟩ := Option.isSome_iff_exists.mp declared
  have inReach : fieldInReach o.cls name .inside = true := by
    rw [fieldInReach, found]
    rfl
  rw [writeMember, memberName_of_not_blank o.cls spelled, pure_bind, inReach, if_pos rfl]
  rfl

theorem writeMember_of_not_writable (spelled : name.isBlank = false)
    (fixed : ¬o.cls.IsWritable name) (v : Value) (set : Bool) :
    writeMember ev o name [] v set .inside = Run.error (.propertyNotWritable name.text) := by
  have noField : o.cls.field? name = none :=
    Option.not_isSome_iff_eq_none.mp fun declared => fixed (.inl declared)
  have noWriter : writer? o.cls name set .inside = none := by
    rw [writer?, Option.filter_eq_none_iff]
    intro decl found
    obtain ⟨group, known, writer⟩ := Option.bind_eq_some_iff.mp found
    refine absurd (.inr ?_) fixed
    rw [ClassDef.hasWriter, known, Option.any_some]
    cases set with
    | false => rw [writer]; rfl
    | true =>
      rw [PropertyGroup.writer] at writer ⊢
      revert writer
      cases group.letWriter <;> cases group.setWriter <;> simp
  rw [writeMember, memberName_of_not_blank o.cls spelled, pure_bind, fieldInReach, noField,
    Option.any_none, if_neg Bool.false_ne_true, noWriter]
  cases getter? o.cls name .inside <;> rfl

theorem writeMember_of_blank (blank : name.isBlank = true) (v : Value) (set : Bool) :
    writeMember ev o name [] v set .inside =
      match o.cls.defaultMember with
      | some member => writeMember ev o member [] v set .inside
      | none => Run.error (.notSupported (o.cls.name ++ " default member")) := by
  cases isDefault : o.cls.defaultMember with
  | none =>
    rw [writeMember, memberName, if_pos blank, isDefault]
    rfl
  | some member =>
    have itself : memberName o.cls member = .ok member := by
      rw [memberName, isDefault]
      split <;> rfl
    have default : memberName o.cls name = .ok member := by
      rw [memberName, if_pos blank, isDefault]
    rw [writeMember, default]
    dsimp only
    rw [writeMember, itself]

theorem exec_execAssign_congr {target target' e : Expr} {set : Bool} {k : Nat}
    {f : Value → Run Unit} (text : target.targetName = target'.targetName)
    (own : m.OwnMember o name) (shapes : m.heap.Shapes o.cell o.cls)
    (same : ∀ v (m' : Machine), m'.OwnMember o name → m'.heap.Shapes o.cell o.cls →
      (assignTo (within k) target v set).exec m' = (f v).exec m') :
    (execAssign (within k) target e set).exec m =
      (evalAssigned (within k) target' e set >>= f).exec m := by
  have value : evalAssigned (within k) target e set = evalAssigned (within k) target' e set := by
    simp only [evalAssigned, assignedValue, text]
  rw [execAssign_eq, value]
  refine Run.exec_bind_congr fun v m' done => ?_
  have keeps := keepsVariables_evalAssigned k target' e set m
  rw [done] at keeps
  exact same v m' (own.of_keepsVariables keeps) (shapes.mono keeps.fields)

end Interpreter

/-- Where a bare name and a member of `Me` are written alike. In every state that a run goes
through, whatever the value is, a member of the current instance that can be assigned is written by
both with the same end and the same state after it. A sub, a function or a property that is only
read is not: the bare name makes a global of that name, and the member of `Me` is refused. The
blank name of a member is a name of its own only when it is bare; through `Me` it stands for the
default member. -/
theorem own_members_written {m₀ : Machine} {n : Nat} {program : Block} (shaped : m₀.Shaped)
    (visits : Script.Visits n program m₀ m) (own : m.OwnMember o name) (k : Nat) (e : Expr)
    (set : Bool) :
    (o.cls.IsWritable name → name.isBlank = false →
      ((Interpreter.within (k + 1)).execAssign (.ident name) e set).exec m =
        ((Interpreter.within (k + 1)).execAssign (.member .me name) e set).exec m) ∧
    (¬o.cls.IsWritable name →
      ((Interpreter.within (k + 1)).execAssign (.ident name) e set).exec m =
          Run.exec (do
            let v ← (Interpreter.within (k + 1)).evalAssigned (.ident name) e set
            modify fun m => { m with scopes := m.scopes.setGlobal name v }) m ∧
        (name.isBlank = false →
          ((Interpreter.within (k + 1)).execAssign (.member .me name) e set).exec m =
            Run.exec (do
              let _ ← (Interpreter.within (k + 1)).evalAssigned (.ident name) e set
              Run.error (.propertyNotWritable name.text)) m)) ∧
    (name.isBlank = true →
      ((Interpreter.within (k + 1)).execAssign (.member .me name) e set).exec m =
        Run.exec (do
          let v ← (Interpreter.within (k + 1)).evalAssigned (.ident name) e set
          match o.cls.defaultMember with
          | some member => (Interpreter.within (k + 1)).writeMember o member [] v set .inside
          | none => Run.error (.notSupported (o.cls.name ++ " default member"))) m) := by
  have shapes : m.heap.Shapes o.cell o.cls := (visits.shaped shaped).scopes.me o own.me
  refine ⟨fun writable spelled => ?_, fun fixed => ⟨?_, fun spelled => ?_⟩, fun blank => ?_⟩
  · rw [Interpreter.execAssign_eq _ (.member .me name)]
    refine Interpreter.exec_execAssign_congr rfl own shapes fun v m' own shapes => ?_
    rw [Interpreter.exec_assignTo_member_me k own.me, Interpreter.assignTo]
    by_cases declared : (o.cls.field? name).isSome
    · rw [Interpreter.exec_writeMember_field spelled declared]
      exact Interpreter.exec_assignName_field own ((shapes.isSome_field? name).trans declared) v set
    · have noField := shapes.field?_eq_none_iff.mpr (Option.not_isSome_iff_eq_none.mp declared)
      exact Interpreter.exec_assignName_accessor own noField (writable.resolve_left declared) v set
  · refine Interpreter.exec_execAssign_congr rfl own shapes fun v m' own shapes => ?_
    have noField := Option.not_isSome_iff_eq_none.mp fun declared => fixed (.inl declared)
    exact Interpreter.exec_assignName_global own (shapes.field?_eq_none_iff.mpr noField)
      (fun writer => fixed (.inr writer)) v set
  · refine Interpreter.exec_execAssign_congr rfl own shapes fun v m' own shapes => ?_
    rw [Interpreter.exec_assignTo_member_me k own.me,
      Interpreter.writeMember_of_not_writable spelled fixed]
  · refine Interpreter.exec_execAssign_congr rfl own shapes fun v m' own shapes => ?_
    rw [Interpreter.exec_assignTo_member_me k own.me, Interpreter.writeMember_of_blank blank]

open Meter SelfAssignment in
theorem level_written_alike :
    start.Shaped ∧ Script.Visits 6 program start touched ∧ touched.OwnMember meter level ∧
      meter.cls.IsWritable level ∧
      ((Interpreter.within 6).execAssign (.ident level) (.literal (.integer 5))
          false).exec touched =
        ((Interpreter.within 6).execAssign (.member .me level) (.literal (.integer 5))
          false).exec touched := by
  have writable : meter.cls.IsWritable level := .inl rfl
  obtain ⟨alike, -⟩ :=
    own_members_written shaped_start visits_touched own_level 5 (.literal (.integer 5)) false
  exact ⟨shaped_start, visits_touched, own_level, writable, alike writable rfl⟩

open Meter SelfAssignment in
/-- The name of the sub is not written alike: `touch = 5` makes a global, and `Me.touch = 5` is
refused. -/
theorem touch_written_apart :
    start.AtRest ∧ Script.Visits 6 program start touched ∧ touched.OwnMember meter touch ∧
      ((Interpreter.within 6).execAssign (.ident touch) (.literal (.integer 5))
          false).exec touched =
        (.ok ⟨⟩, { touched with scopes := touched.scopes.setGlobal touch (.integer 5) }) ∧
      ((Interpreter.within 6).execAssign (.member .me touch) (.literal (.integer 5))
          false).exec touched =
        (.error (.error (.propertyNotWritable "touch")), touched) :=
  ⟨Host.atRest_machine _ _, visits_touched, own_touch, rfl, rfl⟩

end ServerScript
