import ServerScript.Proofs.Refusals

/-! What a run does with the recorded place of an error, by the tasks that it meets. A run that
starts with no place recorded ends with none if it ends without an error, and it meets tasks only at
states with none. A task that fails ends the run with the same error and the same place; an error of
a run that comes from no task leaves no place. All this holds of everything that runs between two
statements: only a statement records a place or resumes an error. -/
namespace ServerScript

/-- A task fails, and a run ends with its error and the place that it leaves. -/
def Task.Ends (n : Nat) (task : Task) (state : Machine) (ends : Except Stop α × Machine) : Prop :=
  ∃ stop, (((Interpreter.within n).run task).exec state).1 = .error stop ∧
    ends.1 = .error stop ∧
    ends.2.errorRange = (((Interpreter.within n).run task).exec state).2.errorRange

/-- The errors of a run are traced to the tasks that it meets. -/
structure Traced (n : Nat) (Q : α → Prop) (x : Option Refusal → Run α) (m : Machine) : Prop where
  clear : ∀ b, ((x none).exec m).1 = .ok b → ((x none).exec m).2.errorRange = none
  result : ∀ b, ((x none).exec m).1 = .ok b → Q b
  told : ∀ task state, (Meets x m task state ∧ state.errorRange = none ∧
    ((∃ r, (((Interpreter.within n).run task).exec state).1 = .ok r) ∨
      task.Ends n state ((x none).exec m))) ∨ Misses x m task state
  source : ∀ stop, ((x none).exec m).1 = .error stop → ((x none).exec m).2.errorRange = none ∨
    ∃ task state, Meets x m task state ∧ task.Ends n state ((x none).exec m)

/-- Tasks that start with no place recorded and end without an error leave none. -/
def Interpreter.Tidy (n : Nat) : Prop :=
  ∀ task m r, m.errorRange = none → (((within n).run task).exec m).1 = .ok r →
    (((within n).run task).exec m).2.errorRange = none

namespace Traced

variable {n : Nat} {Q : α → Prop} {R : β → Prop} {x : Option Refusal → Run α} {m : Machine}

/-- A task that is not missed starts with no place recorded, and an error of it is passed on. -/
theorem of_not_misses (traced : Traced n Q x m) {task : Task} {state : Machine} {stop : Stop}
    (fails : (((Interpreter.within n).run task).exec state).1 = .error stop)
    (met : ¬Misses x m task state) :
    state.errorRange = none ∧
      (((Interpreter.within n).run task).exec state).2.errorRange =
        ((x none).exec m).2.errorRange := by
  rcases traced.told task state with ⟨-, clear, ⟨r, done⟩ | ⟨stop', -, -, place⟩⟩ | misses
  · rw [fails] at done
    cases done
  · exact ⟨clear, place.symm⟩
  · exact absurd misses met

theorem bind {f : Option Refusal → α → Run β} (first : Traced n Q x m)
    (next : ∀ b m', Q b → m'.errorRange = none → Traced n R (fun i => f i b) m') :
    Traced n R (fun i => x i >>= f i) m := by
  cases done : ((x none).exec m).1 with
  | error stop =>
    have ends : (x none).exec m = (.error stop, ((x none).exec m).2) := Prod.ext done rfl
    have same : (x none >>= f none).exec m = (.error stop, ((x none).exec m).2) :=
      Run.exec_bind_error ends
    have passes : ∀ task state, Task.Ends n task state ((x none).exec m) →
        Task.Ends n task state ((x none >>= f none).exec m) := by
      rintro task state ⟨stop', fails, failed, place⟩
      obtain rfl := Except.error.inj (done.symm.trans failed)
      rw [same]
      exact ⟨stop, fails, rfl, place⟩
    refine ⟨?_, ?_, fun task state => ?_, fun stop' _ => ?_⟩
    · rw [same]
      exact nofun
    · rw [same]
      exact nofun
    · exact (first.told task state).imp (fun ⟨meets, clear, ends⟩ =>
        ⟨meets.bind, clear, ends.imp_right (passes task state)⟩) fun misses =>
          misses.bind_error ends
    · rcases first.source stop done with place | ⟨task, state, meets, ends⟩
      · exact .inl (by rw [same]; exact place)
      · exact .inr ⟨task, state, meets.bind, passes task state ends⟩
  | ok b =>
    have ends : (x none).exec m = (.ok b, ((x none).exec m).2) := Prod.ext done rfl
    have same : (x none >>= f none).exec m = (f none b).exec ((x none).exec m).2 :=
      Run.exec_bind_ok ends
    have later := next b _ (first.result b done) (first.clear b done)
    refine ⟨?_, ?_, fun task state => ?_, fun stop failed => ?_⟩
    · rw [same]
      exact later.clear
    · rw [same]
      exact later.result
    · rcases first.told task state with ⟨meets, clear, succeeds | ⟨stop, -, failed, -⟩⟩ | misses
      · exact .inl ⟨meets.bind, clear, .inl succeeds⟩
      · rw [done] at failed
        cases failed
      · rw [same]
        exact (later.told task state).imp (.imp_left (misses.bind_meets ends)) (misses.bind ends)
    · rw [same] at failed ⊢
      refine (later.source stop failed).imp_right ?_
      rintro ⟨task, state, meets, fails⟩
      refine ⟨task, state, ?_, fails⟩
      rcases first.told task state with ⟨meets, -⟩ | misses
      · exact meets.bind
      · exact misses.bind_meets ends meets

theorem alone {ends : Except Stop α × Machine} (runs : ∀ i, (x i).exec m = ends)
    (place : ends.2.errorRange = none) (result : ∀ b, ends.1 = .ok b → Q b) :
    Traced n Q x m := by
  refine ⟨?_, ?_, fun _ _ => .inr fun _ => (runs _).trans (runs none).symm, ?_⟩ <;> rw [runs]
  · exact fun _ _ => place
  · exact result
  · exact fun _ _ => .inl place

theorem ofPlace {act : Run α} (same : (act.exec m).2.errorRange = m.errorRange)
    (clear : m.errorRange = none) (result : ∀ b, (act.exec m).1 = .ok b → Q b) :
    Traced n Q (fun _ => act) m :=
  alone (fun _ => rfl) (same.trans clear) result

theorem wrap {y : Option Refusal → Run α} {start : Machine} (exit : Machine → Machine)
    (inner : Traced n Q x start)
    (runs : ∀ i, (y i).exec m = (((x i).exec start).1, exit ((x i).exec start).2))
    (place : ∀ m, (exit m).errorRange = m.errorRange) : Traced n Q y m := by
  let out (ends : Except Stop α × Machine) := (ends.1, exit ends.2)
  have through : ∀ i, (y i).exec m = out ((x i).exec start) := runs
  have meets : ∀ task state, Meets x start task state → Meets y m task state := fun _ _ =>
    .between through fun _ _ _ => rfl
  have passes : ∀ task state, Task.Ends n task state ((x none).exec start) →
      Task.Ends n task state ((y none).exec m) := by
    rintro task state ⟨stop, fails, failed, same⟩
    rw [runs]
    exact ⟨stop, fails, failed, (place _).trans same⟩
  refine ⟨?_, ?_, fun task state => ?_, ?_⟩
  · rw [runs]
    exact fun b done => (place _).trans (inner.clear b done)
  · rw [runs]
    exact inner.result
  · exact (inner.told task state).imp (fun ⟨met, clear, ends⟩ =>
      ⟨meets task state met, clear, ends.imp_right (passes task state)⟩) (.between through)
  · intro stop failed
    rw [runs] at failed
    refine (inner.source stop failed).imp (fun clear => ?_) ?_
    · rw [runs]
      exact (place _).trans clear
    · rintro ⟨task, state, met, ends⟩
      exact ⟨task, state, meets task state met, passes task state ends⟩

theorem ofTask (tidy : Interpreter.Tidy n) (task : Task) {Q : task.Result → Prop}
    (results : ∀ r, Q r) (clear : m.errorRange = none) :
    Traced n Q (fun i => ((Interpreter.within n).facing i).run task) m := by
  have fails : ∀ stop, (((Interpreter.within n).run task).exec m).1 = .error stop →
      task.Ends n m (((Interpreter.within n).run task).exec m) := fun stop failed =>
    ⟨stop, failed, failed, rfl⟩
  refine ⟨fun r => tidy task m r clear, fun r _ => results r, fun other state => ?_,
    fun stop failed => .inr ⟨task, m, meets_run _ task m, fails stop failed⟩⟩
  by_cases same : other = task ∧ m = state
  · obtain ⟨rfl, rfl⟩ := same
    refine .inl ⟨meets_run _ other m, clear, ?_⟩
    cases ends : (((Interpreter.within n).run other).exec m).1 with
    | ok r => exact .inl ⟨r, rfl⟩
    | error stop => exact .inr (fails stop ends)
  · exact .inr (misses_run _ same)

theorem modifyScopes {change : Scopes → Except EvalError Scopes} (clear : m.errorRange = none) :
    Traced n (fun _ => True) (fun _ => Run.modifyScopes change) m := by
  refine ofPlace ?_ clear fun _ _ => trivial
  rw [Run.modifyScopes, Run.exec_get_bind]
  split <;> rfl

end Traced

def traceExprs (n : Nat) : ExprJudgement (Option Refusal) .any where
  holds Q x := ∀ m : Machine, m.errorRange = none → Traced n Q x m
  bind first next := fun m clear => (first m clear).bind fun b m' result clear =>
    next b result m' clear
  world act := fun m clear => .ofPlace (act.moves m m.carries_any).errorRange clear
    fun _ => (act.ends m m.carries_any).result
  assign _ := fun m clear => by
    refine .ofPlace ?_ clear fun r _ => by cases r <;> trivial
    rw [Run.assignWith, Run.exec_get_bind]
    split <;> rfl
  guarded {ref name x} holds := fun m clear => by
    cases starts : m.startsGetter ref.cell name with
    | false =>
      exact .alone (fun i => Interpreter.exec_guardGetter_of_running starts (x i)) clear
        fun v _ => Policy.any_value v
    | true =>
      exact .wrap (·.leaveGetter ref.cell name) (holds (m.enterGetter ref.cell name) clear)
        (fun i => Interpreter.exec_guardGetter starts (x i)) fun _ => rfl

def traceStmts (n : Nat) : StmtJudgement (Option Refusal) .any where
  toJudgement := (traceExprs n).toJudgement
  exprs := traceExprs n
  declares _ := True
  modes _ := True
  lift holds := holds
  define _ _ := fun _ clear => .modifyScopes clear
  constant _ := fun _ clear => .modifyScopes clear
  extend _ := by
    refine (traceExprs n).bind ((traceExprs n).world (Run.worldly_resolve _)) fun r _ => ?_
    cases r with
    | missing =>
      exact (traceExprs n).bind (fun _ clear => .modifyScopes clear) fun _ _ =>
        (traceExprs n).pure trivial
    | _ => exact (traceExprs n).pure trivial
  inside {α x target} _ holds := fun m clear =>
    .wrap (·.leaveWith) (holds (m.enterWith target) clear)
      (fun i => Interpreter.exec_inside target (x i)) fun _ => rfl
  errorMode _ := fun _ clear => .ofPlace rfl clear fun _ _ => trivial
  compareMode := fun _ clear => .ofPlace rfl clear fun _ _ => trivial

namespace Interpreter

variable {n : Nat} {m : Machine}

theorem Tidy.expr (tidy : Tidy n) (e : Expr) :
    (traceExprs n).Evaluates (within n).facing e := by
  intro _
  exact .ofTask tidy (.expr e) Policy.any_value

theorem Tidy.invoke (tidy : Tidy n) : (traceExprs n).Invokes (within n).facing := by
  intro decl this values _ _ _ _
  refine .ofTask tidy (.invoke decl this values) fun _ => ?_
  exact ⟨Policy.any_value _, fun _ _ => Policy.any_value _⟩

theorem Tidy.store (tidy : Tidy n) : (traceExprs n).Stores (within n).facing := by
  intro index value name _ _ container _ _
  exact .ofTask tidy (.store container index value name) fun _ => trivial

theorem Tidy.block (tidy : Tidy n) (block : Block) :
    (traceStmts n).Runs (within n).facing block :=
  fun _ => .ofTask tidy (.block block) fun _ => trivial

theorem Tidy.work (tidy : Tidy n) (stmt : Stmt) (clear : m.errorRange = none) :
    Traced n (fun _ => True) (fun i => ((within n).facing i).work stmt) m := by
  let S := traceStmts n
  have serves : S.Serves (within n).facing :=
    ⟨tidy.invoke, tidy.store, fun _ => ⟨n, (within n).fuel_facing⟩⟩
  have kinds : S.holds (fun _ => True) fun i => execKind ((within n).facing i) stmt.kind :=
    StmtJudgement.holds_execKind serves ⟨fun e _ => tidy.expr e, fun body _ => tidy.block body,
      fun _ _ => trivial, fun _ _ => trivial, stmt.kind.obeys_any⟩
  exact S.bind (S.world .checkDeadline) (fun _ _ => kinds) m clear

theorem Tidy.rules (tidy : Tidy n) {task : Task} (other : ∀ block, task ≠ .block block)
    (clear : m.errorRange = none) :
    Traced n (fun _ => True) (fun i => ((within n).facing i).rules task) m := by
  let J := traceExprs n
  cases task with
  | expr e =>
    have values := J.holds_evalExpr tidy.invoke (fun part _ => tidy.expr part) (e := e)
      (fun _ _ => id) fun _ _ _ _ part _ => tidy.expr part
    exact J.weaken values (fun _ _ => trivial) m clear
  | block block => exact absurd rfl (other block)
  | invoke decl this values =>
    have body : (traceStmts n).holds Policy.any.invocation fun i =>
        runBody ((within n).facing i) decl values :=
      StmtJudgement.holds_runBody (fun _ _ => trivial) (fun _ => trivial) (fun _ _ => trivial)
        (fun _ _ => Policy.any_value _) (tidy.block decl.body)
    by_cases full : m.callLimit ≤ m.callDepth
    · exact .alone (fun i => (exec_invokeProcedure _ _ _ _).trans (if_pos full)) clear
        fun _ _ => trivial
    · exact .wrap (leave (.ofMachine m))
        ((traceStmts n).weaken body (fun _ _ => trivial) (enter decl this m) clear)
        (fun i => (exec_invokeProcedure _ _ _ _).trans (if_neg full)) fun _ => rfl
  | store container index value name =>
    exact J.holds_storeElement tidy.invoke (fun _ _ => trivial) (Policy.any_value _)
      (fun _ _ => Policy.any_value _) (Policy.any_value _)
      (fun _ _ _ _ _ _ => tidy.store _ _ _ (fun _ _ => Policy.any_value _)
        (Policy.any_value _)) m clear

end Interpreter
end ServerScript
