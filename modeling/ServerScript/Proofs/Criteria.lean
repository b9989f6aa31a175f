import ServerScript.Proofs.LoopFree
import ServerScript.Proofs.Names
import ServerScript.Proofs.Reachability

/-! Judgements that look at ends only. A criterion says how the members of a family may end; it is
closed under sequencing and under every change of ends that lets stops through, errors of the
script apart. A criterion gives a judgement at each depth of calls, and a task is judged from the
tasks that it may issue, which are listed here. -/
namespace ServerScript

/-- A state at a given depth of calls that carries only code of a policy. -/
structure Machine.Level (p : Policy) (limit depth : Nat) (m : Machine) : Prop where
  carries : m.Carries p
  callLimit : m.callLimit = limit
  callDepth : m.callDepth = depth

namespace Machine

variable {p : Policy} {limit depth : Nat} {m m' : Machine}

theorem Moves.level (moved : m.Moves p m') (level : m.Level p limit depth) :
    m'.Level p limit depth := by
  refine ⟨moved.carries level.carries, ?_, ?_⟩
  · exact moved.callLimit.trans level.callLimit
  · exact moved.callDepth.trans level.callDepth

theorem Level.ofScopes (level : m.Level p limit depth) {scopes : Scopes} {heap : Heap}
    (names : scopes.Carries p) (store : heap.Carries p) :
    Level p limit depth { m with scopes, heap } :=
  ⟨⟨names, store, level.carries.withStack, level.carries.procedure, level.carries.natives⟩,
    level.callLimit, level.callDepth⟩

theorem Level.enterGetter (level : m.Level p limit depth) (cell : Nat) (name : Name) :
    (m.enterGetter cell name).Level p limit depth := by
  refine level.ofScopes level.carries.scopes ?_
  rw [Interpreter.enterGetter]
  split
  · exact level.carries.heap
  · split
    · exact level.carries.heap
    · exact level.carries.heap.modifyInstance cell fun _ fields => fields

theorem Level.leaveGetter (level : m.Level p limit depth) (cell : Nat) (name : Name) :
    (m.leaveGetter cell name).Level p limit depth := by
  refine level.ofScopes level.carries.scopes ?_
  exact level.carries.heap.modifyInstance cell fun _ fields => fields

theorem Level.withStack (level : m.Level p limit depth) {targets : List Value}
    (values : ∀ v ∈ targets, p.value v) : Level p limit depth { m with withStack := targets } :=
  ⟨⟨level.carries.scopes, level.carries.heap, values, level.carries.procedure,
      level.carries.natives⟩,
    level.callLimit, level.callDepth⟩

theorem Level.enterWith (level : m.Level p limit depth) {target : Value} (value : p.value target) :
    (m.enterWith target).Level p limit depth := by
  apply level.withStack
  exact List.forall_mem_cons.mpr ⟨value, level.carries.withStack⟩

theorem Level.leaveWith (level : m.Level p limit depth) : m.leaveWith.Level p limit depth := by
  apply level.withStack
  intro v member
  exact level.carries.withStack v (List.mem_of_mem_drop member)

theorem Level.errorMode (level : m.Level p limit depth) (resumeNext : Bool) (err : ErrRecord)
    (errorRange : Option Range) : Level p limit depth { m with resumeNext, err, errorRange } :=
  ⟨⟨level.carries.scopes, level.carries.heap, level.carries.withStack, level.carries.procedure,
    level.carries.natives⟩, level.callLimit, level.callDepth⟩

theorem Level.assign (level : m.Level p limit depth) {name : Name} {v : Value} {scopes : Scopes}
    {heap : Heap} {r : Assigned} (value : p.value v)
    (done : m.scopes.assign m.heap name v = .ok (scopes, heap, r)) :
    Level p limit depth { m with scopes, heap } ∧ p.assigned r := by
  have names := level.carries.scopes
  have store := level.carries.heap
  obtain ⟨rfl, rfl, rfl⟩ | ⟨-, rfl, rfl, rfl⟩ | ⟨i, rfl, rfl, rfl⟩ | ⟨i, isMe, rfl, rfl, rfl⟩ :=
    Scopes.assign_cases done
  · exact ⟨level.ofScopes (names.setInFrames value) store, trivial⟩
  · exact ⟨level.ofScopes (names.setGlobal value) store, trivial⟩
  · exact ⟨level.ofScopes names ((Heap.advances_setField m.heap _ _ value).carries store), trivial⟩
  · exact ⟨level.ofScopes names store, names.me i isMe⟩

theorem Level.enter (level : m.Level p limit depth) {decl : Procedure} {this : Option InstanceRef}
    (allowed : p.procedure decl) (current : ∀ ref, this = some ref → p.inst ref.cell ref.cls) :
    (Interpreter.enter decl this m).Level p limit (depth + 1) := by
  have names := level.carries.scopes
  refine ⟨⟨⟨fun scope member => ?_, names.globals, names.constants, current⟩, level.carries.heap,
    nofun, fun other same => Option.some.inj same ▸ allowed, level.carries.natives⟩,
    level.callLimit, congrArg (· + 1) level.callDepth⟩
  rcases List.mem_cons.mp member with rfl | member
  · exact ⟨nofun, nofun⟩
  · exact names.frames scope member

theorem Carries.leave (carries : m.Carries p) (inner : m'.Carries p) :
    (Interpreter.leave (.ofMachine m) m').Carries p := by
  have names := inner.scopes
  exact ⟨⟨fun scope member => names.frames scope (List.mem_of_mem_drop member), names.globals,
    names.constants, carries.scopes.me⟩, inner.heap, carries.withStack, carries.procedure,
    inner.natives⟩

theorem Level.leave (level : m.Level p limit depth) (inner : m'.Level p limit (depth + 1)) :
    (Interpreter.leave (.ofMachine m) m').Level p limit depth := by
  refine ⟨level.carries.leave inner.carries, inner.callLimit, ?_⟩
  rw [Interpreter.leave]
  exact congrArg (· - 1) inner.callDepth

end Machine

/-- A change of ends that lets every stop through that is no error of the script. -/
structure Passes (P P' : Machine → Prop) (Q : α → Prop) (Q' : β → Prop)
    (change : Except Stop α × Machine → Except Stop β × Machine) : Prop where
  stops : ∀ s m, (∀ e, s ≠ .error e) → (change (.error s, m)).1 = .error s
  steady : ∀ r m, (change (r, m)).1 = .error .exhausted → r = .error .exhausted
  state : ∀ r m, P m → P' (change (r, m)).2
  result : ∀ r m, (∀ a, r = .ok a → Q a) → ∀ b, (change (r, m)).1 = .ok b → Q' b

theorem Passes.ofState {P P' : Machine → Prop} {Q : α → Prop} {change : Machine → Machine}
    (keeps : ∀ m, P m → P' (change m)) : Passes P P' Q Q fun e => (e.1, change e.2) :=
  ⟨fun _ _ _ => rfl, fun _ _ => id, fun _ m => keeps m, fun _ _ => id⟩

theorem passes_settle {p : Policy} {limit depth : Nat} {Q : α → Prop} (range : Range) :
    Passes (Machine.Level p limit depth) (Machine.Level p limit depth) Q (fun _ : Option α => True)
      fun
        | (.ok a, m) => (.ok (some a), m)
        | (.error (.error e), m) =>
          if e.isFatal || !m.resumeNext then (.error (.error e), m.reportError range)
          else (.ok none, m.resumeError e)
        | (.error s, m) => (.error s, m) := by
  refine ⟨fun s m other => ?_, fun r m => ?_, fun r m level => ?_, fun _ _ _ _ _ => trivial⟩
  · cases s with
    | error e => exact absurd rfl (other e)
    | fault f => rfl
    | exhausted => rfl
  · rcases r with ⟨⟨e⟩ | ⟨f⟩ | _⟩ | a
    · dsimp only
      split <;> exact nofun
    · exact nofun
    · exact fun _ => rfl
    · exact nofun
  · rcases r with ⟨⟨e⟩ | ⟨f⟩ | _⟩ | a
    · dsimp only
      split
      · exact level.errorMode _ _ _
      · exact level.errorMode _ _ _
    · exact level
    · exact level
    · exact level

structure Criterion (ι : Type) (p : Policy) where
  meets : {α : Type} → (Machine → Prop) → (α → Prop) → (ι → Except Stop α × Machine) → Prop
  same : ∀ {α : Type} {P : Machine → Prop} {Q : α → Prop} {r : Except Stop α} {m : Machine},
    Ends p Q r → P m → meets P Q fun _ => (r, m)
  bind : ∀ {α β : Type} {P : Machine → Prop} {Q : α → Prop} {R : β → Prop} {x : ι → Run α}
    {f : ι → α → Run β} {m : Machine}, meets P Q (fun i => (x i).exec m) →
    (∀ a m', Q a → P m' → meets P R fun i => (f i a).exec m') →
    meets P R fun i => (x i >>= f i).exec m
  pass : ∀ {α β : Type} {P P' : Machine → Prop} {Q : α → Prop} {Q' : β → Prop}
    {e : ι → Except Stop α × Machine} {change : Except Stop α × Machine → Except Stop β × Machine},
    meets P Q e → Passes P P' Q Q' change → meets P' Q' fun i => change (e i)

namespace Criterion

variable {ι : Type} {p : Policy} (C : Criterion ι p) (limit depth : Nat)

def Holds (Q : α → Prop) (x : ι → Run α) : Prop :=
  ∀ m : Machine, m.Level p limit depth →
    C.meets (Machine.Level p limit depth) Q fun i => (x i).exec m

variable {C limit depth} {Q : α → Prop} {m : Machine}

theorem holds_modifyScopes {change : Scopes → Except EvalError Scopes}
    (keeps : ∀ {scopes scopes'}, scopes.Carries p → change scopes = .ok scopes' →
      scopes'.Carries p) :
    C.Holds limit depth (fun _ => True) fun _ => Run.modifyScopes change := by
  intro m level
  simp only [Run.modifyScopes, Run.exec_get_bind]
  cases done : change m.scopes with
  | ok scopes =>
    exact C.same trivial (level.ofScopes (keeps level.carries.scopes done) level.carries.heap)
  | error e =>
    refine C.same ?_ level
    rintro ⟨⟩

theorem holds_worldly {act : Run α} (worldly : act.Worldly p Q) :
    C.Holds limit depth Q fun _ => act := by
  intro m level
  exact C.same (worldly.ends m level.carries) ((worldly.moves m level.carries).level level)

theorem holds_assign {name : Name} {v : Value} (value : p.value v) :
    C.Holds limit depth p.assigned fun _ =>
      Run.assignWith fun scopes h => scopes.assign h name v := by
  intro m level
  simp only [Run.assignWith, Run.exec_get_bind]
  cases done : m.scopes.assign m.heap name v with
  | ok result =>
    obtain ⟨level', assigned⟩ := level.assign value done
    exact C.same assigned level'
  | error e =>
    refine C.same ?_ level
    rintro ⟨⟩

theorem holds_guardGetter {ref : InstanceRef} {name : Name} {x : ι → Run Value}
    (holds : C.Holds limit depth p.value x) :
    C.Holds limit depth p.value fun i => Interpreter.guardGetter ref name (x i) := by
  intro m level
  cases starts : m.startsGetter ref.cell name with
  | false =>
    simp only [Interpreter.exec_guardGetter_of_running starts]
    exact C.same trivial level
  | true =>
    simp only [Interpreter.exec_guardGetter starts]
    exact C.pass (holds _ (level.enterGetter ref.cell name))
      (.ofState fun _ inner => inner.leaveGetter ref.cell name)

theorem holds_settle {x : ι → Run α} {range : Range} (holds : C.Holds limit depth Q x) :
    C.Holds limit depth (fun _ => True) fun i => Interpreter.settle range (x i) := by
  intro m level
  simp only [Interpreter.exec_settle]
  exact C.pass (holds m level) (passes_settle range)

theorem holds_inside {x : ι → Run α} {target : Value} (value : p.value target)
    (holds : C.Holds limit depth Q x) :
    C.Holds limit depth Q fun i => Run.inside target (x i) := by
  intro m level
  simp only [Interpreter.exec_inside]
  exact C.pass (holds _ (level.enterWith value)) (.ofState fun _ inner => inner.leaveWith)

variable (C limit depth)

def exprs : ExprJudgement ι p where
  holds := C.Holds limit depth
  bind first next := fun m level => C.bind (first m level) fun a m' result level' =>
    next a result m' level'
  world := holds_worldly
  assign := holds_assign
  guarded := holds_guardGetter

def stmts : BlockJudgement ι p where
  toJudgement := (C.exprs limit depth).toJudgement
  exprs := C.exprs limit depth
  declares _ := True
  modes _ := True
  lift holds := holds
  define _ value := holds_modifyScopes fun names done => names.define value done
  constant value := holds_modifyScopes fun names done => names.setConstant value done
  extend value := by
    refine (C.exprs limit depth).bind (holds_worldly (Run.worldly_resolve _)) fun r _ => ?_
    cases r with
    | missing =>
      exact (C.exprs limit depth).bind
        (holds_modifyScopes fun names done => names.define value done) fun _ _ =>
          holds_worldly (.pure trivial)
    | _ => exact holds_worldly (.pure trivial)
  settle := holds_settle
  inside := holds_inside
  errorMode _ := fun m level => C.same trivial (level.errorMode _ _ m.errorRange)
  compareMode := fun m level => C.same trivial (level.ofScopes
    ⟨level.carries.scopes.frames, level.carries.scopes.globals, level.carries.scopes.constants,
      level.carries.scopes.me⟩ level.carries.heap)

end Criterion

namespace Task

def LoopFree (accepts : ClassDecl → Bool) : Task → Prop
  | expr _ => True
  | block body => blockLoopFree accepts body
  | invoke decl this values =>
    (Policy.loopFree accepts).procedure decl ∧
      (∀ ref, this = some ref → (Policy.loopFree accepts).cls ref.cls) ∧
      ∀ v ∈ values, (Policy.loopFree accepts).value v
  | store container index value _ =>
    (Policy.loopFree accepts).value container ∧
      (∀ v ∈ index, (Policy.loopFree accepts).value v) ∧ (Policy.loopFree accepts).value value

def Gives (p : Policy) : (task : Task) → task.Result → Prop
  | expr _ => p.value
  | block _ => fun _ => True
  | invoke .. => p.invocation
  | store .. => fun _ => True

def innerDepth : Task → Nat → Nat
  | invoke .., depth => depth + 1
  | _, depth => depth

/-- The tasks that a task may issue. Expressions and blocks issue their parts, with two exceptions:
a `New` issues the bounds of the class, and calls issue bodies, one level deeper. A store issues
another one for an instance whose default member relays it. -/
def Next (p : Policy) (limit depth : Nat) : Task → Task → Prop
  | expr e, expr part =>
    part ∈ e.parts ∨ (∃ name, e = .new name) ∧ ∃ cls, p.cls cls ∧ part ∈ cls.bounds
  | block outer, block body => ∃ stmt ∈ outer, body ∈ stmt.kind.bodies
  | block _, expr _ => True
  | block _, store .. => True
  | store container index value _, store _ index' value' member =>
    index' = index ∧ value' = value ∧ ∃ cell cls, container = .inst cell cls ∧
      Interpreter.memberName cls .blank = .ok member ∧
      Interpreter.relays cls member false .outside
  | invoke decl _ _, block body => depth < limit ∧ body = decl.body
  | expr _, invoke .. => True
  | block _, invoke .. => True
  | store .., invoke .. => True
  | _, _ => False

end Task

namespace Criterion

variable {ι : Type} {accepts : ClassDecl → Bool} {C : Criterion ι (.loopFree accepts)}
  {limit depth : Nat} {ev : ι → Interpreter}

theorem holds_invokeProcedure {decl : Procedure} {this : Option InstanceRef} {values : List Value}
    (free : (Task.invoke decl this values).LoopFree accepts)
    (body : depth < limit →
      C.Holds limit (depth + 1) (fun _ => True) fun i => (ev i).block decl.body) :
    C.Holds limit depth (Policy.loopFree accepts).invocation fun i =>
      (ev i).invokeProcedure decl this values := by
  obtain ⟨allowed, current, given⟩ := free
  intro m level
  simp only [Interpreter.exec_invokeProcedure]
  by_cases full : m.callLimit ≤ m.callDepth
  · simp only [if_pos full]
    exact C.same nofun level
  · simp only [if_neg full]
    have room : depth < limit := by
      rw [← level.callLimit, ← level.callDepth]
      exact Nat.lt_of_not_le full
    have runs : C.Holds limit (depth + 1) (Policy.loopFree accepts).invocation fun i =>
        (ev i).runBody decl values :=
      StmtJudgement.holds_runBody (S := (C.stmts limit (depth + 1)).toStmtJudgement)
        (fun _ _ => trivial) (fun _ => trivial) (fun _ _ => trivial) given (body room)
    exact C.pass (runs _ (level.enter allowed current)) (.ofState fun _ inner => level.leave inner)

/-- A task meets a criterion if the tasks that it may issue do. -/
theorem holds_rules {task : Task} (free : task.LoopFree accepts)
    (issued : ∀ task', task.Next (.loopFree accepts) limit depth task' → task'.LoopFree accepts →
      C.Holds limit (task.innerDepth depth) (task'.Gives (.loopFree accepts))
        fun i => (ev i).run task') :
    C.Holds limit depth (task.Gives (.loopFree accepts)) fun i => (ev i).rules task := by
  cases task with
  | expr e =>
    refine (C.exprs limit depth).holds_evalExpr (fun decl this values a b c => ?_)
      (fun part member => ?_) (fun _ _ => id) fun name same cls allowed part member => ?_
    · exact issued (.invoke decl this values) trivial ⟨a, b, c⟩
    · exact issued (.expr part) (.inl member) trivial
    · exact issued (.expr part) (.inr ⟨⟨name, same⟩, cls, allowed, member⟩) trivial
  | block block =>
    have serves : (C.stmts limit depth).Serves ev :=
      ⟨fun decl this values a b c => issued (.invoke decl this values) trivial ⟨a, b, c⟩,
        fun index value name a b container c =>
          issued (.store container index value name) trivial ⟨c, a, b⟩, nofun⟩
    refine BlockJudgement.holds_execBlock serves fun stmt member => ?_
    have inner := loopFree_of_mem_block free member
    refine ⟨fun e _ => issued (.expr e) trivial trivial, fun body inside => ?_,
      fun _ _ => trivial, fun _ _ => trivial, StmtKind.obeys_loopFree inner⟩
    exact issued (.block body) ⟨stmt, member, inside⟩ (loopFree_of_mem_bodies inner inside)
  | invoke decl this values =>
    refine holds_invokeProcedure free fun room => ?_
    refine issued (.block decl.body) ⟨room, rfl⟩ ?_
    rw [Task.LoopFree, ← Procedure.loopFree_iff]
    exact free.1
  | store container index value name =>
    obtain ⟨target, indexed, given⟩ := free
    refine (C.exprs limit depth).holds_storeElement (fun decl this values a b c => ?_)
      (fun _ _ => trivial) target indexed given
      fun cell cls member same found relayed other allowed => ?_
    · exact issued (.invoke decl this values) trivial ⟨a, b, c⟩
    · exact issued (.store other index value member) ⟨rfl, rfl, cell, cls, same, found, relayed⟩
        ⟨allowed, indexed, given⟩

end Criterion
end ServerScript
