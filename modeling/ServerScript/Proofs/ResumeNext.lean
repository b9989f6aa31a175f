import ServerScript.Proofs.Locals

/-! Resumed errors. A block changes the error mode only as its own `On Error` statements say, and a
call not at all, for it starts with errors going up and gives the mode of its caller back. An error
that goes up from a block under `On Error Resume Next` is fatal. -/
namespace ServerScript

/-- A block chooses an error mode, itself or in a block inside of one of its statements. The bodies
of declarations are no part of it. -/
inductive ChoosesMode (mode : ErrorMode) : Block → Prop where
  | here {block stmt} (member : stmt ∈ block) (kind : Stmt.kind stmt = .onError mode) :
    ChoosesMode mode block
  | inner {block stmt body} (member : stmt ∈ block) (inside : body ∈ (Stmt.kind stmt).bodies)
    (chooses : ChoosesMode mode body) : ChoosesMode mode block

theorem StmtKind.eq_onError_of_mem_modes {kind : StmtKind} {resumeNext : Bool}
    (member : resumeNext ∈ kind.modes) :
    ∃ mode, kind = .onError mode ∧ resumeNext = (mode == .resumeNext) := by
  cases kind with
  | onError mode => exact ⟨mode, rfl, List.mem_singleton.mp member⟩
  | _ => cases member

def modeExprs : ExprDiscipline where
  Pre _ := True
  Step m m' := m'.resumeNext = m.resumeNext
  refl _ := rfl
  trans first second := second.trans first
  keeps _ _ := trivial
  moves _ moved := moved.resumeNext
  assign _ _ := rfl
  enterGetter _ _ := trivial
  leaveGetter _ _ inner := inner

def modeStmts (allowed : Bool → Prop) : StmtDiscipline where
  Pre _ := True
  Step m m' := m'.resumeNext = m.resumeNext ∨ allowed m'.resumeNext
  refl _ := .inl rfl
  trans {m m' m''} first second := by
    rcases second with same | chosen
    · rwa [same]
    · exact .inr chosen
  keeps _ _ := trivial
  moves _ moved := .inl moved.resumeNext
  exprs := modeExprs
  declares _ := True
  modes := allowed
  pre_iff := .rfl
  lift _ same := .inl same
  define _ _ _ := .inl rfl
  constant _ _ := .inl rfl
  extend _ _ _ := .inl rfl
  errorMode _ chosen := chosen
  compareMode _ := .inl rfl
  enterWith _ := trivial
  leaveWith _ inner := inner

/-- The regime under which a block chooses its error modes and a call may choose any for itself. -/
def modeRegime (allowed : Bool → Prop) : Regime where
  stmts
    | [] => modeStmts allowed
    | _ :: _ => modeStmts fun _ => True
  fits
    | [], block => ∀ mode, ChoosesMode mode block → allowed (mode == .resumeNext)
    | _ :: _, _ => True
  rest {chain _ _} fits := by
    cases chain with
    | nil =>
      rintro mode (⟨member, kind⟩ | ⟨member, inside, chooses⟩)
      · exact fits mode (.here (List.mem_cons_of_mem _ member) kind)
      · exact fits mode (.inner (List.mem_cons_of_mem _ member) inside chooses)
    | cons => trivial
  inner {chain _ _ _} fits member inside := by
    cases chain with
    | nil => exact fun mode chooses => fits mode (.inner member inside chooses)
    | cons => trivial
  declared {chain _ _ _} _ _ _ := by cases chain <;> trivial
  modes {chain _ stmt _} fits member inside := by
    cases chain with
    | nil =>
      obtain ⟨mode, kind, rfl⟩ := StmtKind.eq_onError_of_mem_modes inside
      exact fits mode (.here member kind)
    | cons => trivial
  body _ _ := trivial
  params _ _ _ _ := trivial
  result _ _ _ := trivial
  scalars _ _ _ _ := trivial
  enter _ _ := trivial
  leave {chain _ _ _ _} _ _ := by cases chain <;> rfl

namespace Interpreter

variable (n : Nat) {block : Block} {m m' : Machine}

theorem mode_execBlock (block : Block) (m : Machine) :
    (((within n).execBlock block).exec m).2.resumeNext = m.resumeNext ∨
      ∃ mode, ChoosesMode mode block ∧
        (((within n).execBlock block).exec m).2.resumeNext = (mode == .resumeNext) := by
  let R := modeRegime fun resumeNext =>
    ∃ mode, ChoosesMode mode block ∧ resumeNext = (mode == .resumeNext)
  have fits : R.fits [] block := fun mode chooses => ⟨mode, chooses, rfl⟩
  exact ((R.sound_within n []).execBlock fits m trivial).step

theorem mode_run {task : Task} (other : ∀ block, task ≠ .block block) (m : Machine) :
    (((within n).run task).exec m).2.resumeNext = m.resumeNext := by
  have sound := (modeRegime fun _ => True).sound_within n []
  cases task with
  | expr e => exact (sound.expr e m trivial).step
  | block block => exact absurd rfl (other block)
  | invoke decl this values =>
    exact (sound.invoke decl this values trivial (fun _ _ => trivial)
      (fun _ _ => Policy.any_value _) m trivial).step
  | store container index value name =>
    exact (sound.store index value name (fun _ _ => Policy.any_value _) (Policy.any_value _)
      container (Policy.any_value _) m trivial).step

theorem isFatal_of_execStmt {ev : Interpreter} {stmt : Stmt} {e : EvalError}
    (ends : (execStmt ev stmt).exec m = (.error (.error e), m')) (resumes : m'.resumeNext = true) :
    e.isFatal = true := by
  obtain ⟨-, m₁, -, goesUp, rfl⟩ := exists_work_of_error ends
  have still : m₁.resumeNext = true := resumes
  simpa [still] using goesUp

theorem isFatal_of_execBlock {ev : Interpreter} {e : EvalError}
    (ends : (execBlock ev block).exec m = (.error (.error e), m'))
    (resumes : m'.resumeNext = true) : e.isFatal = true := by
  induction block generalizing m with
  | nil => cases ends
  | cons stmt rest ih =>
    rw [execBlock, Run.exec_bind] at ends
    split at ends
    · split at ends
      · exact ih ends
      · cases ends
    · next failed =>
      cases ends
      exact isFatal_of_execStmt (Prod.ext failed rfl) resumes

theorem mode_openFrame {decl : Procedure} {this : Option InstanceRef} {values : List Value}
    (opened : (openFrame decl values).exec (enter decl this m) = (.ok ⟨⟩, m')) :
    m'.resumeNext = false := by
  let S := (modeStmts fun _ => False).judgement
  have holds : S.holds (fun _ => True) fun _ => openFrame decl values :=
    StmtJudgement.holds_openFrame (fun _ => trivial) fun _ _ => Policy.any_value _
  have step := (holds (enter decl this m) trivial).step
  rw [opened] at step
  exact step.resolve_right False.elim

end Interpreter

theorem EvalError.eq_of_isFatal {e : EvalError} (fatal : e.isFatal = true) :
    e = .timeout ∨ ∃ limit, e = .recursion limit := by
  cases e with
  | timeout => exact .inl rfl
  | recursion limit => exact .inr ⟨limit, rfl⟩
  | _ => cases fatal

/-- `On Error Resume Next` is complete and contained. A block that starts under it and does not
choose `On Error GoTo 0` ends under it, with any end, and the only errors of the script that go up
from it are the fatal ones. A call, with all that it writes back, leaves the error mode of its
caller as it was, and so does every task other than a block: an expression, a call and a store, with
the getters and the procedures that they run. The body of a call does not start under it. -/
theorem resume_next_complete_and_contained :
    (∀ (n : Nat) (block : Block) (m : Machine), m.resumeNext = true →
      ¬ChoosesMode .gotoZero block →
      (((Interpreter.within n).execBlock block).exec m).2.resumeNext = true ∧
      ∀ e, (((Interpreter.within n).execBlock block).exec m).1 = .error (.error e) →
        e = .timeout ∨ ∃ limit, e = .recursion limit) ∧
    (∀ (n : Nat) (m : Machine),
      (∀ decl this args,
        (((Interpreter.within n).callProcedure decl this args).exec m).2.resumeNext =
          m.resumeNext) ∧
      ∀ task, (∀ block, task ≠ .block block) →
        (((Interpreter.within n).run task).exec m).2.resumeNext = m.resumeNext) ∧
    ∀ (n : Nat) (chain : List Procedure) (decl : Procedure) (this : Option InstanceRef)
      (values : List Value) (m : Machine) (s : Stage),
      Stage.Leads ⟨n, chain, .invoke decl this values, m⟩ s → s.state.resumeNext = false := by
  refine ⟨fun n block m resumes free => ?_, fun n m => ⟨fun decl this args => ?_,
    fun task other => Interpreter.mode_run n other m⟩, fun n chain decl this values m s leads => ?_⟩
  · have still : (((Interpreter.within n).execBlock block).exec m).2.resumeNext = true := by
      rcases Interpreter.mode_execBlock n block m with same | ⟨mode, chooses, same⟩
      · exact same.trans resumes
      · cases mode with
        | resumeNext => exact same
        | gotoZero => exact absurd chooses free
    exact ⟨still, fun e ends =>
      EvalError.eq_of_isFatal (Interpreter.isFatal_of_execBlock (Prod.ext ends rfl) still)⟩
  · exact (Interpreter.restoresMode_callProcedure n m decl this args).resumeNext
  · cases leads with
    | issue issues => exact Interpreter.mode_openFrame issues.body

/-- `Function f`, whose body is `On Error GoTo 0` and a call of the missing `boom`. -/
def Procedure.raising : Procedure :=
  ⟨⟨"f"⟩, .function, .everyone, false, [],
    [⟨.onError .gotoZero, {}⟩, ⟨.call (.call (.ident ⟨"boom"⟩) []), {}⟩]⟩

/-- `If True Then f()`. -/
def Script.callsRaising : Block :=
  [⟨.choose [⟨.literal (.bool true), [⟨.call (.call (.ident ⟨"f"⟩) []), {}⟩]⟩] none, {}⟩]

/-- A state under `On Error Resume Next` in which that function is defined. -/
def Machine.resuming : Machine :=
  ((Interpreter.defineProcedure .raising).exec { resumeNext := true }).2

def Machine.inRaising : Machine :=
  ((Interpreter.openFrame .raising []).exec (Interpreter.enter .raising none .resuming)).2

theorem raising_call_resumed :
    Machine.resuming.resumeNext = true ∧ ¬ChoosesMode .gotoZero Script.callsRaising ∧
    (((Interpreter.within 12).execBlock Script.callsRaising).exec .resuming).2.resumeNext = true ∧
    (((Interpreter.within 12).execBlock Script.callsRaising).exec .resuming).2.err.number = 13 ∧
    (((Interpreter.within 12).run (.invoke .raising none [])).exec .resuming).2.resumeNext = true ∧
    Stage.Leads ⟨1, [], .invoke .raising none [], .resuming⟩
      ⟨0, [.raising], .block Procedure.raising.body, .inRaising⟩ ∧
    Machine.inRaising.resumeNext = false := by
  have free : ¬ChoosesMode .gotoZero Script.callsRaising := by
    rintro (⟨member, kind⟩ | ⟨member, inside, chooses⟩)
    · obtain rfl := List.mem_singleton.mp member
      cases kind
    · obtain rfl := List.mem_singleton.mp member
      obtain rfl := List.mem_singleton.mp inside
      rcases chooses with ⟨member, kind⟩ | ⟨member, inside, -⟩
      · obtain rfl := List.mem_singleton.mp member
        cases kind
      · obtain rfl := List.mem_singleton.mp member
        cases inside
  have opened : (Interpreter.openFrame .raising []).exec
      (Interpreter.enter .raising none .resuming) = (.ok ⟨⟩, .inRaising) := rfl
  have leads : Stage.Leads ⟨1, [], .invoke .raising none [], .resuming⟩
      ⟨0, [.raising], .block Procedure.raising.body, .inRaising⟩ :=
    .issue ((Interpreter.within 0).issues_body (by decide) opened)
  have complete := resume_next_complete_and_contained.1 12 _ .resuming rfl free
  refine ⟨rfl, free, complete.1, by decide +kernel, ?_, leads, ?_⟩
  · exact (resume_next_complete_and_contained.2.1 12 .resuming).2 _ nofun
  · exact resume_next_complete_and_contained.2.2 _ _ _ _ _ _ _ leads

end ServerScript
