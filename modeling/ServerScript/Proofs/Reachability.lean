import ServerScript.Proofs.Discipline

/-! The states that a run goes through. The interpreter runs tasks: expressions, blocks, calls and
stores. A task issues another one from a state if its own run depends on the answer that the other
one gets there, that is, if it would end differently were that answer some stop. The answer to
every task that is run can be told apart from some stop in this way, since no rule drops the end
of a task. -/
namespace ServerScript

inductive Task where
  | expr (e : Expr)
  | block (block : Block)
  | invoke (decl : Procedure) (this : Option InstanceRef) (values : List Value)
  | store (container : Value) (index : List Value) (value : Value) (name : Name)

namespace Task

def Result : Task → Type
  | expr _ => Value
  | block _ => Flow
  | invoke .. => Invocation
  | store .. => Unit

def chain : Task → List Procedure → List Procedure
  | invoke decl _ _, outer => decl :: outer
  | _, outer => outer

end Task

open Classical in
noncomputable def Run.stopAt (act : Run α) (P : Machine → Prop) (stop : Stop) : Run α := fun m =>
  if P m then (.error stop, m) else act m

namespace Run

theorem exec_stopAt_of_not {P : Machine → Prop} {m : Machine} (other : ¬P m) (act : Run α)
    (stop : Stop) : (act.stopAt P stop).exec m = act.exec m := if_neg other

theorem exec_stopAt {P : Machine → Prop} {m : Machine} (here : P m) (act : Run α) (stop : Stop) :
    (act.stopAt P stop).exec m = (.error stop, m) := if_pos here

end Run

namespace Interpreter

def run (ev : Interpreter) : (task : Task) → Run task.Result
  | .expr e => ev.expr e
  | .block block => ev.block block
  | .invoke decl this values => ev.invoke decl this values
  | .store container index value name => ev.store container index value name

def rules (ev : Interpreter) : (task : Task) → Run task.Result
  | .expr e => ev.evalExpr e
  | .block block => ev.execBlock block
  | .invoke decl this values => ev.invokeProcedure decl this values
  | .store container index value name => ev.storeElement container index value name

theorem run_within_succ (n : Nat) (task : Task) :
    (within (n + 1)).run task = (within n).rules task := by
  cases task <;> rfl

/-- The interpreter that answers one task at one state with a stop. -/
noncomputable def refusing (ev : Interpreter) (task : Task) (state : Machine) (stop : Stop) :
    Interpreter where
  fuel := ev.fuel
  expr e := (ev.expr e).stopAt (fun m => task = .expr e ∧ m = state) stop
  block b := (ev.block b).stopAt (fun m => task = .block b ∧ m = state) stop
  invoke decl this values :=
    (ev.invoke decl this values).stopAt (fun m => task = .invoke decl this values ∧ m = state) stop
  store container index value name :=
    (ev.store container index value name).stopAt
      (fun m => task = .store container index value name ∧ m = state) stop

/-- A task that is run from one state runs another task from another state. -/
def Issues (ev : Interpreter) (task : Task) (m : Machine) (task' : Task) (m' : Machine) : Prop :=
  ∃ stop, ((ev.refusing task' m' stop).rules task).exec m ≠ (ev.rules task).exec m

end Interpreter

def Stop.Final (stop : Stop) : Prop := ∀ e, stop ≠ .error e

theorem Stop.exists_shows {ends : Stop → Except Stop α × Machine}
    (stopped : ∀ stop : Stop, stop.Final → (ends stop).1 = .error stop)
    (e : Except Stop α × Machine) : ∃ stop, ends stop ≠ e := by
  by_cases same : e.1 = .error .exhausted
  · refine ⟨.fault .capacityOverflow, fun equal => ?_⟩
    have shown := stopped (.fault .capacityOverflow) nofun
    rw [equal, same] at shown
    cases shown
  · refine ⟨.exhausted, fun equal => same ?_⟩
    rw [← equal]
    exact stopped .exhausted nofun

namespace Interpreter

/-- What a call does in its own frame ahead of its body. -/
def openFrame (decl : Procedure) (values : List Value) : Run Unit := do
  bindParams decl.params values
  if decl.kind.returnsValue then Run.modifyScopes (·.define decl.name .empty)
  hoistScalars decl.body

theorem exec_runBody (ev : Interpreter) {decl : Procedure} {values : List Value} {m m' : Machine}
    (opened : (openFrame decl values).exec m = (.ok ⟨⟩, m')) :
    (ev.runBody decl values).exec m =
      (ev.block decl.body >>= fun _ => get >>= fun m => pure ({
        value := if decl.kind.returnsValue then localValue m decl.name else .empty
        params := decl.params.map fun param => localValue m param.name } : Invocation)).exec
        m' := by
  have split : ev.runBody decl values = openFrame decl values >>= fun _ =>
      discard (ev.block decl.body) >>= fun _ => get >>= fun m => pure ({
        value := if decl.kind.returnsValue then localValue m decl.name else .empty
        params := decl.params.map fun param => localValue m param.name } : Invocation) := by
    rw [runBody, openFrame]
    cases decl.kind.returnsValue <;> simp
  rw [split, Run.exec_bind_ok opened, Run.discard_eq, bind_assoc]
  rfl

theorem exec_execStmt_of_final {ev : Interpreter} {stmt : Stmt} {stop : Stop}
    {m m' m'' : Machine} (final : stop.Final) (running : m.control.halt = none)
    (inTime : Run.checkDeadline.exec m = (.ok ⟨⟩, m'))
    (stopped : (execKind ev stmt.kind).exec m' = (.error stop, m'')) :
    (execStmt ev stmt).exec m = (.error stop, m'') := by
  have settled : (settle stmt.range (Run.checkDeadline >>= fun _ => execKind ev stmt.kind)).exec m =
      (.error stop, m'') := by
    rw [exec_settle, Run.exec_bind_ok inTime, stopped]
    cases stop with
    | error e => exact absurd rfl (final e)
    | fault f => rfl
    | exhausted => rfl
  rw [execStmt, Run.exec_get_bind, running]
  exact Run.exec_bind_error settled

theorem issues_body (ev : Interpreter) {decl : Procedure} {this : Option InstanceRef}
    {values : List Value} {m m' : Machine} (room : m.callDepth < m.callLimit)
    (opened : (openFrame decl values).exec (enter decl this m) = (.ok ⟨⟩, m')) :
    ev.Issues (.invoke decl this values) m (.block decl.body) m' := by
  refine Stop.exists_shows (fun stop _ => ?_) _
  have body : ((ev.refusing (.block decl.body) m' stop).block decl.body).exec m' =
      (.error stop, m') := Run.exec_stopAt ⟨rfl, rfl⟩ _ stop
  change
    ((invokeProcedure (ev.refusing (.block decl.body) m' stop) decl this values).exec m).1 = _
  rw [exec_invokeProcedure, if_neg (Nat.not_le_of_lt room), exec_runBody _ opened,
    Run.exec_bind_error body]
  rfl

end Interpreter

theorem StmtJudgement.holds_openFrame {ι : Type} {p : Policy} {S : StmtJudgement ι p}
    {decl : Procedure} {values : List Value} (declares : ∀ name, S.declares name)
    (given : ∀ v ∈ values, p.value v) :
    S.holds (fun _ => True) fun _ => Interpreter.openFrame decl values := by
  refine S.bind (StmtJudgement.holds_bindParams (fun _ _ => declares _) given) fun _ _ => ?_
  have scalars : S.holds (fun _ => True) fun _ => Interpreter.hoistScalars decl.body :=
    S.forM (f := fun _ => _) fun name _ => StmtJudgement.holds_declare (declares name) trivial
  exact S.ite (fun _ => S.bind (S.define (declares _) trivial) fun _ _ => scalars) fun _ => scalars

namespace Script

/-- A program that is run with a bound on the recursion of the interpreter. -/
def runWithin (n : Nat) (program : Block) : Run Flow := do
  Interpreter.hoist program
  (Interpreter.within n).block program

end Script

/-- A point of a run: a task that starts at a state, the bound on its steps and the procedures
that are running, innermost first. -/
structure Stage where
  bound : Nat
  chain : List Procedure
  task : Task
  state : Machine

/-- One stage leads to another: it issues the other task, or the other one is the rest of its
block after a first statement that ended normally. -/
inductive Stage.Leads : Stage → Stage → Prop where
  | issue {n chain task m task' m'} (issues : (Interpreter.within n).Issues task m task' m') :
    Leads ⟨n + 1, chain, task, m⟩ ⟨n, task.chain chain, task', m'⟩
  | next {n chain stmt rest m m'}
    (ends : ((Interpreter.within n).execStmt stmt).exec m = (.ok .normal, m')) :
    Leads ⟨n + 1, chain, .block (stmt :: rest), m⟩ ⟨n + 1, chain, .block rest, m'⟩

def Task.pending : Task → Nat
  | .block stmts => stmts.length
  | _ => 0

/-- No stage leads on without end: the bound falls, or a statement of a block is done. -/
theorem Stage.wellFounded_leads : WellFounded fun s' s : Stage => s.Leads s' := by
  refine Subrelation.wf ?_ (InvImage.wf (fun s : Stage => (s.bound, s.task.pending))
    (Prod.lex Nat.lt_wfRel Nat.lt_wfRel).wf)
  intro s' s leads
  cases leads with
  | @issue n => exact .left _ _ (Nat.lt_succ_self n)
  | @next _ _ _ rest => exact .right _ (Nat.lt_succ_self rest.length)

structure Machine.AtRest (m : Machine) : Prop where
  frames : m.scopes.frames = []
  callDepth : m.callDepth = 0
  me : m.scopes.me = none
  procedure : m.procedure = none
  withStack : m.withStack = []
  running : ∀ cell, m.heap.running cell = []

/-- The stages that can come up in a run from a state at rest. Time may pass at any of them. -/
inductive Stage.Reachable : Stage → Prop where
  | start {n task m} (rest : Machine.AtRest m) : Reachable ⟨n, [], task, m⟩
  | step {s s'} (before : Reachable s) (leads : s.Leads s') : Reachable s'
  | look {s} (before : Reachable s) :
    Reachable { s with state := { s.state with control := s.state.control.tick } }

namespace Regime

variable (R : Regime) {chain : List Procedure}

def fitsTask (chain : List Procedure) : Task → Prop
  | .block block => R.fits chain block
  | _ => True

variable {R}

theorem agree_stopAt {D : Discipline} {Q : α → Prop} {x y : Run α} {P : Machine → Prop}
    {m : Machine} {stop : Stop} (agree : D.Agree Q x y m) (other : ¬P m) :
    D.Agree Q (x.stopAt P stop) y m := by
  refine ⟨?_, agree.step, agree.result⟩
  rw [Run.exec_stopAt_of_not other x stop]
  exact agree.same

theorem sound_refusing (n : Nat) {task : Task} {state : Machine} (stop : Stop)
    (misfit : ¬(R.Pre chain state ∧ R.fitsTask chain task)) :
    R.Sound chain fun i =>
      bif i then .within n else (Interpreter.within n).refusing task state stop := by
  have sound := R.sound_within n chain
  have iff : ∀ {m}, (R.stmts chain).exprs.Pre m ↔ R.Pre chain m := (R.stmts chain).pre_iff
  refine ⟨fun e m pre => agree_stopAt (sound.expr e m pre) ?_,
    fun block fits m pre => agree_stopAt (sound.block block fits m pre) ?_,
    fun decl this values a b c m pre => agree_stopAt (sound.invoke decl this values a b c m pre) ?_,
    fun index value name a b container c m pre =>
      agree_stopAt (sound.store index value name a b container c m pre) ?_,
    n, fun i => by cases i <;> rfl⟩
  · rintro ⟨rfl, rfl⟩
    exact misfit ⟨iff.mp pre, trivial⟩
  · rintro ⟨rfl, rfl⟩
    exact misfit ⟨pre, fits⟩
  · rintro ⟨rfl, rfl⟩
    exact misfit ⟨iff.mp pre, trivial⟩
  · rintro ⟨rfl, rfl⟩
    exact misfit ⟨iff.mp pre, trivial⟩

theorem leads {s s' : Stage} (leads : s.Leads s') (pre : R.Pre s.chain s.state)
    (fits : R.fitsTask s.chain s.task) :
    R.Pre s'.chain s'.state ∧ R.fitsTask s'.chain s'.task := by
  cases leads with
  | @issue n chain task m task' m' issues =>
    obtain ⟨stop, differs⟩ := issues
    by_contra misfit
    have sound := R.sound_refusing n stop misfit
    have before : (R.stmts chain).exprs.Pre m := (R.stmts chain).pre_iff.mpr pre
    cases task with
    | expr e => exact differs (sound.evalExpr e m before).same
    | block block => exact differs (sound.execBlock fits m pre).same
    | invoke decl this values => exact differs (sound.invokeProcedure this values m before).same
    | store container index value name =>
      exact differs (sound.storeElement container index value name m before).same
  | @next n chain stmt rest m m' ends =>
    have agree := (R.sound_within n chain).execStmt List.mem_cons_self fits m pre
    refine ⟨?_, R.rest fits⟩
    have step := agree.step
    dsimp only at step
    rw [ends] at step
    exact (R.stmts chain).keeps pre step

theorem step_run (n : Nat) (chain : List Procedure) {task : Task} {m : Machine}
    (pre : R.Pre chain m) (fits : R.fitsTask chain task) :
    (R.stmts chain).Step m (((Interpreter.within n).run task).exec m).2 := by
  have sound := R.sound_within n chain
  have before : (R.stmts chain).exprs.Pre m := (R.stmts chain).pre_iff.mpr pre
  cases task with
  | expr e => exact (R.stmts chain).lift pre (sound.expr e m before).step
  | block block => exact (sound.block block fits m pre).step
  | invoke decl this values =>
    have agree := sound.invoke decl this values trivial (fun _ _ => trivial)
      (fun _ _ => Policy.any_value _) m before
    exact (R.stmts chain).lift pre agree.step
  | store container index value name =>
    have agree := sound.store index value name (fun _ _ => Policy.any_value _)
      (Policy.any_value _) container (Policy.any_value _) m before
    exact (R.stmts chain).lift pre agree.step

def uniform (stmts : StmtDiscipline) (declares : ∀ name, stmts.declares name)
    (modes : ∀ resumeNext, stmts.modes resumeNext)
    (enter : ∀ {m decl this}, stmts.Pre m → stmts.Pre (Interpreter.enter decl this m))
    (leave : ∀ {m m' decl this}, stmts.Step (Interpreter.enter decl this m) m' →
      stmts.exprs.Step m (Interpreter.leave (.ofMachine m) m')) : Regime where
  stmts _ := stmts
  fits _ _ := True
  rest _ := trivial
  inner _ _ _ := trivial
  declared _ _ _ := declares _
  modes _ _ _ := modes _
  body _ _ := trivial
  params _ _ _ _ := declares _
  result _ _ _ := declares _
  scalars _ _ _ _ := declares _
  enter pre _ := enter pre
  leave _ body := leave body

/-- What holds at rest holds at every stage of a run. -/
theorem reachable {s : Stage} (reachable : s.Reachable)
    (start : ∀ m : Machine, m.AtRest → R.Pre [] m) (empty : ∀ block, R.fits [] block) :
    R.Pre s.chain s.state ∧ R.fitsTask s.chain s.task := by
  induction reachable with
  | @start n task m rest =>
    refine ⟨start m rest, ?_⟩
    cases task with
    | block block => exact empty block
    | _ => trivial
  | step before leads ih => exact R.leads leads ih.1 ih.2
  | @look s before ih =>
    have moved : s.state.Moves .any { s.state with control := s.state.control.tick } :=
      .ofControl _ (fun _ => id) (Nat.le_succ _)
    exact ⟨(R.stmts s.chain).keeps ih.1 ((R.stmts s.chain).moves ih.1 moved), ih.2⟩

end Regime
end ServerScript
