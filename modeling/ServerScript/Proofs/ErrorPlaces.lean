import ServerScript.Proofs.Ceiling
import ServerScript.Proofs.ErrorTracing

/-! The place of an error. A stage brings an error to another one if it issues that task, or goes on
to that rest of its block, and the other one ends with the error. The statements that fail with an
error form a path in this relation, and the place that a run records is that of the last one. -/
namespace ServerScript

theorem Machine.errorRange_reportError (m : Machine) (range : Range) :
    (m.reportError range).errorRange = some (m.errorRange.getD range) := by
  rw [reportError]
  cases m.errorRange <;> rfl

namespace Interpreter

variable {n : Nat} {stmt : Stmt} {block rest : Block} {flow : Flow} {e : EvalError} {task : Task}
  {m m' state : Machine}

theorem Tidy.clear_execStmt (tidy : Tidy n) (clear : m.errorRange = none)
    (ends : ((within n).execStmt stmt).exec m = (.ok flow, m')) : m'.errorRange = none := by
  cases running : m.control.halt with
  | some reason =>
    rw [exec_execStmt_of_halted _ stmt running] at ends
    cases ends
    exact clear
  | none =>
    rw [exec_execStmt _ stmt running] at ends
    split at ends
    · next inner m₁ worked =>
      cases ends
      have place := (tidy.work stmt clear).clear inner (congrArg Prod.fst worked)
      exact (congrArg (·.2.errorRange) worked).symm.trans place
    · split at ends
      · cases ends
      · cases ends
        rfl
    · cases ends

theorem Tidy.clear_execBlock (tidy : Tidy n) (clear : m.errorRange = none)
    (ends : ((within n).execBlock block).exec m = (.ok flow, m')) : m'.errorRange = none := by
  induction block generalizing m with
  | nil =>
    cases ends
    exact clear
  | cons stmt rest ih =>
    obtain ⟨first, m₁, begun, ends⟩ := Run.exists_of_exec_bind_eq_ok ends
    have between := tidy.clear_execStmt clear begun
    match first, ends with
    | .normal, ends => exact ih between ends
    | .exit kind, ends =>
      cases ends
      exact between
    | .halt reason, ends =>
      cases ends
      exact between

theorem tidy_within (n : Nat) : Tidy n := by
  induction n with
  | zero =>
    intro task m r clear done
    cases task <;> cases done
  | succ n tidy =>
    intro task m r clear done
    rw [run_within_succ] at done ⊢
    by_cases block : ∃ block, task = .block block
    · obtain ⟨block, rfl⟩ := block
      exact tidy.clear_execBlock clear (Prod.ext done rfl)
    · exact (tidy.rules (not_exists.mp block) clear).clear r done

theorem exec_execBlock_of_error {ev : Interpreter} {stop : Stop}
    (fails : (ev.execStmt stmt).exec m = (.error stop, m')) :
    (ev.execBlock (stmt :: rest)).exec m = (.error stop, m') :=
  Run.exec_bind_error fails

theorem meets_execBlock (running : m.control.halt = none)
    (meets : Meets (fun i => ((within n).facing i).work stmt) m task state) :
    Meets (fun i => ((within n).facing i).rules (.block (stmt :: rest))) m task state := by
  intro stop final
  let ev := (within n).facing (some ⟨task, state, stop⟩)
  have begun : (ev.execStmt stmt).exec m = (.error stop, ((ev.work stmt).exec m).2) := by
    rw [exec_execStmt ev stmt running,
      show (ev.work stmt).exec m = (.error stop, _) from Prod.ext (meets stop final) rfl]
    cases stop with
    | error e => exact absurd rfl (final e)
    | _ => rfl
  exact congrArg Prod.fst (exec_execBlock_of_error begun)

theorem misses_execBlock (fails : ((within n).execStmt stmt).exec m = (.error (.error e), m'))
    (misses : Misses (fun i => ((within n).facing i).work stmt) m task state) :
    Misses (fun i => ((within n).facing i).rules (.block (stmt :: rest))) m task state := by
  intro stop
  refine (exec_execBlock_of_error ?_).trans (exec_execBlock_of_error fails).symm
  exact (exec_execStmt_congr (misses stop)).trans fails

end Interpreter

namespace Stage

def Fails (e : EvalError) (s : Stage) : Prop := s.run.1 = .error (.error e)

def place (s : Stage) : Option Range := s.run.2.errorRange

/-- A block fails with an error at its first statement, which has a place. -/
inductive FailsAt (e : EvalError) : Range → Stage → Prop where
  | first {n chain stmt rest m}
    (fails : (((Interpreter.within n).execStmt stmt).exec m).1 = .error (.error e)) :
    FailsAt e stmt.range ⟨n + 1, chain, .block (stmt :: rest), m⟩

/-- One stage leads to another one that fails, and does not resume the error: if the first stage is
a block that issues the second one, its first statement fails with the same error. -/
inductive Brings (e : EvalError) : Stage → Stage → Prop where
  | issue {n chain task m task' m'} (issues : (Interpreter.within n).Issues task m task' m')
    (fails : Fails e ⟨n, task.chain chain, task', m'⟩)
    (goesUp : ∀ stmt rest, task = .block (stmt :: rest) →
      (((Interpreter.within n).execStmt stmt).exec m).1 = .error (.error e)) :
    Brings e ⟨n + 1, chain, task, m⟩ ⟨n, task.chain chain, task', m'⟩
  | next {n chain stmt rest m m'}
    (ends : ((Interpreter.within n).execStmt stmt).exec m = (.ok .normal, m'))
    (fails : Fails e ⟨n + 1, chain, .block rest, m'⟩) :
    Brings e ⟨n + 1, chain, .block (stmt :: rest), m⟩ ⟨n + 1, chain, .block rest, m'⟩

/-- A statement raises an error by its own execution: it fails with the error, and no statement
that is run inside of it, in its blocks or in procedures, brings the error up to it. -/
structure Raises (e : EvalError) (range : Range) (s : Stage) : Prop where
  failsAt : s.FailsAt e range
  innermost : ∀ s' range', Relation.TransGen (Brings e) s s' → ¬s'.FailsAt e range'

/-- What a stage makes of the place with which its error comes to it: it hands the place on, and
only a statement records its own instead of none. -/
structure Hands (e : EvalError) (s : Stage) (inner : Option Range) : Prop where
  brought : ∀ s', s.Brings e s' → s'.state.errorRange = none ∧ s'.place = inner
  source : inner = none ∨ ∃ s', s.Brings e s'
  place : (s.place = inner ∧ ∀ range, ¬s.FailsAt e range) ∨
    ∃ range, s.FailsAt e range ∧ s.place = some (inner.getD range)

variable {e : EvalError} {range : Range} {s s' : Stage} {n : Nat} {chain : List Procedure}
  {task : Task} {stmt : Stmt} {block rest : Block} {m m' : Machine}

theorem Brings.leads (brings : s.Brings e s') : s.Leads s' := by
  cases brings with
  | issue issues _ _ => exact .issue issues
  | next ends _ => exact .next ends

theorem Brings.fails (brings : s.Brings e s') : s'.Fails e := by
  cases brings with
  | issue _ fails _ => exact fails
  | next _ fails => exact fails

theorem FailsAt.fails (failsAt : s.FailsAt e range) : s.Fails e := by
  cases failsAt with
  | first fails =>
    exact congrArg Prod.fst (Interpreter.exec_execBlock_of_error (Prod.ext fails rfl))

theorem FailsAt.unique {range' : Range} (failsAt : s.FailsAt e range)
    (failsAt' : s.FailsAt e range') : range = range' := by
  cases failsAt
  cases failsAt'
  rfl

theorem hands_of_rules (other : ∀ block, task ≠ .block block) (clear : m.errorRange = none)
    (fails : Fails e ⟨n + 1, chain, task, m⟩) :
    Hands e ⟨n + 1, chain, task, m⟩ (place ⟨n + 1, chain, task, m⟩) := by
  have traced := (Interpreter.tidy_within n).rules other clear
  rw [Fails, run, Interpreter.run_within_succ] at fails
  have same : place ⟨n + 1, chain, task, m⟩ =
      (((Interpreter.within n).rules task).exec m).2.errorRange := by
    rw [place, run, Interpreter.run_within_succ]
  refine ⟨fun s' brings => ?_, ?_, .inl ⟨rfl, ?_⟩⟩
  · cases brings with
    | issue issues inner =>
      rw [same]
      exact traced.of_not_misses inner issues.not_misses
    | next => exact absurd rfl (other _)
  · rw [same]
    refine (traced.source _ fails).imp_right ?_
    rintro ⟨task', state, meets, stop, inner, failed, -⟩
    obtain rfl := Except.error.inj (failed.symm.trans fails)
    exact ⟨_, .issue meets.issues inner fun stmt rest same => absurd same (other _)⟩
  · rintro _ ⟨-⟩
    exact other _ rfl

theorem hands_of_execStmt (clear : m.errorRange = none)
    (fails : (((Interpreter.within n).execStmt stmt).exec m).1 = .error (.error e)) :
    ∃ inner, Hands e ⟨n + 1, chain, .block (stmt :: rest), m⟩ inner := by
  have traced := (Interpreter.tidy_within n).work stmt clear
  obtain ⟨m', ends⟩ : ∃ m', ((Interpreter.within n).execStmt stmt).exec m =
      (.error (.error e), m') := ⟨_, Prod.ext fails rfl⟩
  obtain ⟨running, m₁, worked, -, rfl⟩ := Interpreter.exists_work_of_error ends
  have same : (((Interpreter.within n).work stmt).exec m).2.errorRange = m₁.errorRange := by
    rw [worked]
  refine ⟨m₁.errorRange, fun s' brings => ?_, ?_, .inr ⟨stmt.range, .first fails, ?_⟩⟩
  · cases brings with
    | issue issues inner =>
      refine (traced.of_not_misses inner fun misses => ?_).imp_right (·.trans same)
      exact issues.not_misses (Interpreter.misses_execBlock ends misses)
    | next done =>
      rw [ends] at done
      cases done
  · rw [← same]
    refine (traced.source _ (congrArg Prod.fst worked)).imp_right ?_
    rintro ⟨task', state, meets, stop, inner, failed, -⟩
    obtain rfl := Except.error.inj (failed.symm.trans (congrArg Prod.fst worked))
    refine ⟨_, .issue (Interpreter.meets_execBlock running meets).issues inner fun _ _ same => ?_⟩
    cases same
    exact fails
  · rw [← Machine.errorRange_reportError]
    exact congrArg (fun ends => ends.2.errorRange) (Interpreter.exec_execBlock_of_error ends)

theorem Fails.begins (fails : Fails e ⟨n + 1, chain, .block (stmt :: rest), m⟩) :
    (((Interpreter.within n).execStmt stmt).exec m).1 = .error (.error e) ∨
      ∃ m', ((Interpreter.within n).execStmt stmt).exec m = (.ok .normal, m') := by
  change (((Interpreter.within n).execBlock (stmt :: rest)).exec m).1 = _ at fails
  rcases ends : ((Interpreter.within n).execStmt stmt).exec m with ⟨stop | flow, m'⟩
  · rw [Interpreter.exec_execBlock_of_error ends] at fails
    exact .inl fails
  · rw [Interpreter.execBlock, Run.exec_bind_ok ends] at fails
    match flow with
    | .normal => exact .inr ⟨m', rfl⟩
    | .exit kind => cases fails
    | .halt reason => cases fails

theorem hands_of_next (clear : m'.errorRange = none)
    (ends : ((Interpreter.within n).execStmt stmt).exec m = (.ok .normal, m'))
    (fails : Fails e ⟨n + 1, chain, .block (stmt :: rest), m⟩) :
    Hands e ⟨n + 1, chain, .block (stmt :: rest), m⟩
      (place ⟨n + 1, chain, .block (stmt :: rest), m⟩) := by
  have goesOn : ¬(((Interpreter.within n).execStmt stmt).exec m).1 = .error (.error e) := by
    rw [ends]
    exact nofun
  refine ⟨fun s' brings => ?_, .inr ⟨_, .next ends ?_⟩, .inl ⟨rfl, ?_⟩⟩
  · cases brings with
    | issue _ _ goesUp => exact absurd (goesUp stmt rest rfl) goesOn
    | next ends' =>
      cases ends.symm.trans ends'
      exact ⟨clear, by rw [place, place, run_next ends]⟩
  · exact (congrArg Prod.fst (run_next ends)).symm.trans fails
  · rintro _ ⟨fails⟩
    exact goesOn fails

theorem exists_hands (clear : s.state.errorRange = none) (fails : s.Fails e) :
    ∃ inner, s.Hands e inner := by
  obtain ⟨bound, chain, task, m⟩ := s
  cases bound with
  | zero => cases task <;> cases fails
  | succ n =>
    by_cases block : ∃ block, task = .block block
    · obtain ⟨_ | ⟨stmt, rest⟩, rfl⟩ := block
      · cases fails
      · rcases fails.begins with first | ⟨m', ends⟩
        · exact hands_of_execStmt clear first
        · have between := (Interpreter.tidy_within n).clear_execStmt clear ends
          exact ⟨_, hands_of_next between ends fails⟩
    · exact ⟨_, hands_of_rules (not_exists.mp block) clear fails⟩

/-- The place with which an error comes to a stage is the one with which it ends there. -/
theorem place_of_path (path : Relation.ReflTransGen (Brings e) s s')
    (clear : s.state.errorRange = none) (fails : s.Fails e) :
    s'.state.errorRange = none ∧ s'.Fails e ∧
      ∀ range, s'.place = some range → s.place = some range := by
  induction path using Relation.ReflTransGen.head_induction_on with
  | refl => exact ⟨clear, fails, fun _ => id⟩
  | @head s s₁ brings path ih =>
    obtain ⟨inner, hands⟩ := exists_hands clear fails
    obtain ⟨clear₁, rfl⟩ := hands.brought s₁ brings
    obtain ⟨clear', fails', passes⟩ := ih clear₁ brings.fails
    refine ⟨clear', fails', fun range known => ?_⟩
    have known := passes range known
    rcases hands.place with ⟨same, -⟩ | ⟨own, -, same⟩
    · rw [same, known]
    · rw [same, known, Option.getD_some]

theorem FailsAt.place (failsAt : s.FailsAt e range) (clear : s.state.errorRange = none) :
    ∃ range', s.place = some range' := by
  obtain ⟨inner, hands⟩ := exists_hands clear failsAt.fails
  rcases hands.place with ⟨-, other⟩ | ⟨own, -, same⟩
  · exact absurd failsAt (other range)
  · exact ⟨_, same⟩

theorem exists_raises (clear : s.state.errorRange = none) (fails : s.Fails e)
    (known : s.place = some range) :
    ∃ s', Relation.ReflTransGen (Brings e) s s' ∧ s'.Raises e range := by
  induction s using wellFounded_leads.induction with
  | _ s ih =>
  obtain ⟨inner, hands⟩ := exists_hands clear fails
  -- A place that came with the error is that of a statement further in.
  have comes : inner = some range →
      ∃ s', Relation.ReflTransGen (Brings e) s s' ∧ s'.Raises e range := by
    rintro rfl
    obtain ⟨s₁, brings⟩ := hands.source.resolve_left (Option.some_ne_none _)
    obtain ⟨clear₁, known₁⟩ := hands.brought s₁ brings
    obtain ⟨s', path, raises⟩ := ih s₁ brings.leads clear₁ brings.fails known₁
    exact ⟨s', path.head brings, raises⟩
  rcases hands.place with ⟨same, -⟩ | ⟨own, failsAt, same⟩
  · exact comes (same.symm.trans known)
  · cases inner with
    | some range' => exact comes (same.symm.trans known)
    | none =>
      obtain rfl : own = range := Option.some.inj (same.symm.trans known)
      refine ⟨s, .refl, failsAt, fun s' range' path failsAt' => ?_⟩
      obtain ⟨s₁, brings, path⟩ := Relation.TransGen.head'_iff.mp path
      obtain ⟨clear₁, none₁⟩ := hands.brought s₁ brings
      obtain ⟨clear', -, passes⟩ := place_of_path path clear₁ brings.fails
      obtain ⟨place', known'⟩ := failsAt'.place clear'
      exact Option.some_ne_none _ ((passes place' known').symm.trans none₁)

theorem Raises.place (raises : s.Raises e range) (clear : s.state.errorRange = none) :
    s.place = some range := by
  obtain ⟨inner, hands⟩ := exists_hands clear raises.failsAt.fails
  rcases hands.place with ⟨-, other⟩ | ⟨own, failsAt, same⟩
  · exact absurd raises.failsAt (other range)
  · obtain rfl := failsAt.unique raises.failsAt
    cases inner with
    | none => exact same
    | some range' =>
      obtain ⟨s₁, brings⟩ := hands.source.resolve_left (Option.some_ne_none _)
      obtain ⟨clear₁, known⟩ := hands.brought s₁ brings
      obtain ⟨s', path, further⟩ := exists_raises clear₁ brings.fails known
      exact absurd further.failsAt
        (raises.innermost s' range' (Relation.TransGen.head' brings path))

theorem exists_place (clear : m.errorRange = none)
    (fails : Fails e ⟨n + 1, chain, .block block, m⟩) :
    ∃ range, place ⟨n + 1, chain, .block block, m⟩ = some range := by
  induction block generalizing m with
  | nil => cases fails
  | cons stmt rest ih =>
    rcases fails.begins with first | ⟨m', ends⟩
    · exact FailsAt.place (.first first) clear
    · rw [Fails, run_next ends] at fails
      rw [place, run_next ends]
      exact ih ((Interpreter.tidy_within n).clear_execStmt clear ends) fails

end Stage

/-- Errors are placed at the innermost statement that fails. A block that starts with no place
recorded and ends without an error leaves none, not even that of an error it has resumed. If it ends
with an error of the script, a place is recorded, and that is the one of the statement, in the block
or in a procedure that was running, whose own execution raised the error and from which it went up
without being resumed. -/
theorem error_placed_innermost (n : Nat) (chain : List Procedure) (block : Block) (m : Machine)
    (clear : m.errorRange = none) :
    (∀ flow m', ((Interpreter.within n).execBlock block).exec m = (.ok flow, m') →
      m'.errorRange = none) ∧
    ∀ e m', ((Interpreter.within n).execBlock block).exec m = (.error (.error e), m') →
      (∃ range, m'.errorRange = some range) ∧
      ∀ range, m'.errorRange = some range ↔
        ∃ s, Relation.ReflTransGen (Stage.Brings e) ⟨n + 1, chain, .block block, m⟩ s ∧
          s.Raises e range := by
  refine ⟨fun flow m' => (Interpreter.tidy_within n).clear_execBlock clear, fun e m' ends => ?_⟩
  have fails : Stage.Fails e ⟨n + 1, chain, .block block, m⟩ := congrArg Prod.fst ends
  have same : Stage.place ⟨n + 1, chain, .block block, m⟩ = m'.errorRange :=
    congrArg (·.2.errorRange) ends
  rw [← same]
  refine ⟨Stage.exists_place clear fails, fun range => ⟨Stage.exists_raises clear fails, ?_⟩⟩
  rintro ⟨s, path, raises⟩
  obtain ⟨clear', -, passes⟩ := Stage.place_of_path path clear fails
  exact passes range (raises.place clear')

/-- `Function f`, whose body is `If True Then` on line 2 and in it `g` on line 3, which is not
defined. -/
def Procedure.failing : Procedure :=
  ⟨⟨"f"⟩, .function, .everyone, false, [],
    [⟨.choose [⟨.literal (.bool true), [⟨.call (.ident ⟨"g"⟩), .line 3⟩]⟩] none, .line 2⟩]⟩

/-- `On Error Resume Next` and `f`. -/
def Script.resumesFailure : Block :=
  [⟨.onError .resumeNext, .line 5⟩, ⟨.call (.ident ⟨"f"⟩), .line 6⟩]

/-- The same, and then `On Error GoTo 0` and `f` again. -/
def Script.failsInside : Block :=
  resumesFailure ++ [⟨.onError .gotoZero, .line 7⟩, ⟨.call (.ident ⟨"f"⟩), .line 8⟩]

def Machine.knowsFailing : Machine :=
  ((Interpreter.defineProcedure .failing).exec {}).2

theorem failure_placed_inside :
    (∃ m', ((Interpreter.within 9).execBlock Script.resumesFailure).exec .knowsFailing =
      (.ok .normal, m') ∧ m'.errorRange = none) ∧
    ∀ range, (∃ s, Relation.ReflTransGen (Stage.Brings (.undefinedFunction "g"))
        ⟨10, [], .block Script.failsInside, .knowsFailing⟩ s ∧
        s.Raises (.undefinedFunction "g") range) ↔ range = .line 3 := by
  have resumes : (((Interpreter.within 9).execBlock Script.resumesFailure).exec
      .knowsFailing).1 = .ok .normal := by decide +kernel
  have fails : (((Interpreter.within 9).execBlock Script.failsInside).exec .knowsFailing).1 =
      .error (.error (.undefinedFunction "g")) := by decide +kernel
  have place : (((Interpreter.within 9).execBlock Script.failsInside).exec
      .knowsFailing).2.errorRange = some (.line 3) := by decide +kernel
  obtain ⟨m', resumes⟩ : ∃ m', ((Interpreter.within 9).execBlock Script.resumesFailure).exec
      .knowsFailing = (.ok .normal, m') := ⟨_, Prod.ext resumes rfl⟩
  obtain ⟨m₁, fails⟩ : ∃ m₁, ((Interpreter.within 9).execBlock Script.failsInside).exec
      .knowsFailing = (.error (.error (.undefinedFunction "g")), m₁) := ⟨_, Prod.ext fails rfl⟩
  rw [fails] at place
  refine ⟨⟨m', resumes, (error_placed_innermost 9 [] _ _ rfl).1 _ m' resumes⟩, fun range => ?_⟩
  rw [← ((error_placed_innermost 9 [] _ _ rfl).2 _ m₁ fails).2 range, place, Option.some.injEq,
    eq_comm]

end ServerScript
