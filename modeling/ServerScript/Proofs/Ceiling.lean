import Mathlib.Logic.Relation
import ServerScript.Proofs.Reachability

/-! The limit on calls does not show in a run that it does not end. Two runs are compared, the
first one with a limit and the second one with a limit at least as large: either the first one is
refused a call, and ends with that error, or the two end alike in states that differ in the limit
only. The same comparison with equal limits shows that a refused call ends the whole run. -/
namespace ServerScript

/-- Which limits are compared, and which refusals are told apart. -/
structure Ceiling where
  Pair : Nat → Nat → Prop
  Refusal : Nat → Prop
  le : ∀ {n k}, Pair n k → n ≤ k
  refusal : ∀ {n k}, Pair n k → n < k → Refusal n

namespace Ceiling

variable (C : Ceiling)

/-- The error of a call that was refused. -/
def Refused (r : Except Stop α) : Prop := ∃ n, C.Refusal n ∧ r = .error (.error (.recursion n))

/-- Two runs that end alike up to the limit on calls. -/
structure Match (Q : α → Prop) (x y : Run α) (m : Machine) (limit : Nat) : Prop where
  same : y.exec (m.withLimit limit) = ((x.exec m).1, (x.exec m).2.withLimit limit)
  kept : (x.exec m).2.callLimit = m.callLimit
  result : ∀ a, (x.exec m).1 = .ok a → Q a

/-- The second run is not told apart from the first one unless that is refused a call. -/
def Follows (Q : α → Prop) (x y : Run α) : Prop :=
  ∀ (m : Machine) (limit : Nat), C.Pair m.callLimit limit →
    C.Refused (x.exec m).1 ∨ Match Q x y m limit

variable {C} {Q : α → Prop} {R : β → Prop}

theorem Follows.bind {x y : Run α} {f g : α → Run β} (first : C.Follows Q x y)
    (next : ∀ a, Q a → C.Follows R (f a) (g a)) : C.Follows R (x >>= f) (y >>= g) := by
  intro m limit pair
  obtain ⟨n, refusal, stopped⟩ | same := first m limit pair
  · have ends : x.exec m = (.error (.error (.recursion n)), (x.exec m).2) := Prod.ext stopped rfl
    exact .inl ⟨n, refusal, by rw [Run.exec_bind_error ends]⟩
  · cases done : (x.exec m).1 with
    | error s =>
      have ends : x.exec m = (.error s, (x.exec m).2) := Prod.ext done rfl
      have ends' := same.same
      rw [done] at ends'
      refine .inr ⟨?_, ?_, ?_⟩ <;> rw [Run.exec_bind_error ends]
      · rw [Run.exec_bind_error ends']
      · exact same.kept
      · exact nofun
    | ok a =>
      have ends : x.exec m = (.ok a, (x.exec m).2) := Prod.ext done rfl
      have ends' := same.same
      rw [done] at ends'
      have more := next a (same.result a done) (x.exec m).2 limit (same.kept ▸ pair)
      rw [Refused, Run.exec_bind_ok ends]
      refine more.imp_right fun more => ⟨?_, ?_, ?_⟩
      · rw [Run.exec_bind_ok ends', Run.exec_bind_ok ends, more.same]
      · rw [Run.exec_bind_ok ends, more.kept, same.kept]
      · rw [Run.exec_bind_ok ends]
        exact more.result

theorem follows_worldly {act : Run α} (worldly : act.Worldly .any Q) : C.Follows Q act act := by
  exact fun m limit _ => .inr ⟨worldly.blind m limit m.carries_any,
    (worldly.moves m m.carries_any).callLimit, fun _ => (worldly.ends m m.carries_any).result⟩

theorem follows_of_blind {act : Run α} (result : ∀ a, Q a)
    (same : ∀ m limit, act.exec (m.withLimit limit) =
      ((act.exec m).1, (act.exec m).2.withLimit limit))
    (kept : ∀ m, (act.exec m).2.callLimit = m.callLimit) : C.Follows Q act act := by
  intro m limit _
  exact .inr ⟨same m limit, kept m, fun a _ => result a⟩

theorem Follows.between {x y u v : Run α} (inner : C.Follows Q x y)
    (enter leave : Machine → Machine) (m : Machine) (limit : Nat) (pair : C.Pair m.callLimit limit)
    (before : ∀ m limit, enter (m.withLimit limit) = (enter m).withLimit limit)
    (after : ∀ m limit, leave (m.withLimit limit) = (leave m).withLimit limit)
    (first : u.exec m = ((x.exec (enter m)).1, leave (x.exec (enter m)).2))
    (second : v.exec (m.withLimit limit) =
      ((y.exec (enter (m.withLimit limit))).1, leave (y.exec (enter (m.withLimit limit))).2)) :
    C.Refused (u.exec m).1 ∨ Match Q u v m limit := by
  have keeps : ∀ {change : Machine → Machine},
      (∀ m limit, change (m.withLimit limit) = (change m).withLimit limit) →
      ∀ m, (change m).callLimit = m.callLimit := by
    intro change blind m
    have same : change m = (change m).withLimit m.callLimit := blind m m.callLimit
    rw [same]
    rfl
  rw [Refused, first]
  refine (inner (enter m) limit (keeps before m ▸ pair)).imp_right fun same => ⟨?_, ?_, ?_⟩
  · rw [second, before, same.same, after, first]
  · rw [first, keeps after, same.kept, keeps before]
  · rw [first]
    exact same.result

theorem follows_guardGetter {ref : InstanceRef} {name : Name} {x y : Run Value}
    {Q : Value → Prop} (empty : Q .empty) (inner : C.Follows Q x y) :
    C.Follows Q (Interpreter.guardGetter ref name x) (Interpreter.guardGetter ref name y) := by
  intro m limit pair
  cases starts : m.startsGetter ref.cell name with
  | false =>
    have run := Interpreter.exec_guardGetter_of_running starts x
    have run' := Interpreter.exec_guardGetter_of_running (m := m.withLimit limit) starts y
    refine .inr ⟨?_, ?_, ?_⟩ <;> rw [run]
    · exact run'
    · exact fun a same => Except.ok.inj same ▸ empty
  | true =>
    exact inner.between (·.enterGetter ref.cell name) (·.leaveGetter ref.cell name) m limit pair
      (fun _ _ => rfl) (fun _ _ => rfl)
      (Interpreter.exec_guardGetter starts x)
      (Interpreter.exec_guardGetter (m := m.withLimit limit) starts y)

theorem follows_settle {x y : Run α} {range : Range} (inner : C.Follows (fun _ => True) x y) :
    C.Follows (fun _ => True) (Interpreter.settle range x) (Interpreter.settle range y) := by
  intro m limit pair
  obtain ⟨n, refusal, stopped⟩ | same := inner m limit pair
  · refine .inl ⟨n, refusal, ?_⟩
    have ends : x.exec m = (.error (.error (.recursion n)), (x.exec m).2) := Prod.ext stopped rfl
    rw [Interpreter.exec_settle, ends]
    rfl
  · have same' := same.same
    have kept := same.kept
    refine .inr ⟨?_, ?_, fun _ _ => trivial⟩ <;> rw [Interpreter.exec_settle]
    · rw [Interpreter.exec_settle, same']
      rcases x.exec m with ⟨⟨⟨e⟩ | ⟨f⟩ | _⟩ | a, m'⟩
      · dsimp only [Machine.withLimit]
        split <;> rfl
      · rfl
      · rfl
      · rfl
    · generalize x.exec m = ends at kept
      rcases ends with ⟨⟨⟨e⟩ | ⟨f⟩ | _⟩ | a, m'⟩
      · dsimp only
        split
        · exact kept
        · exact kept
      · exact kept
      · exact kept
      · exact kept

theorem follows_inside {x y : Run α} {target : Value} (inner : C.Follows Q x y) :
    C.Follows Q (Run.inside target x) (Run.inside target y) := by
  intro m limit pair
  exact inner.between (·.enterWith target) (·.leaveWith) m limit pair
    (fun _ _ => rfl) (fun _ _ => rfl) (Interpreter.exec_inside target x)
    (Interpreter.exec_inside target y)

theorem follows_modifyScopes (change : Scopes → Except EvalError Scopes) :
    C.Follows (fun _ => True) (Run.modifyScopes change) (Run.modifyScopes change) := by
  refine follows_of_blind (fun _ => trivial) (fun m limit => ?_) fun m => ?_ <;>
    simp only [Run.modifyScopes, Run.exec_get_bind, Machine.withLimit] <;>
    cases change m.scopes <;> rfl

theorem follows_assignWith (write : Scopes → Heap → Except EvalError (Scopes × Heap × Assigned))
    {Q : Assigned → Prop} (result : ∀ a, Q a) :
    C.Follows Q (Run.assignWith write) (Run.assignWith write) := by
  refine follows_of_blind result (fun m limit => ?_) fun m => ?_ <;>
    simp only [Run.assignWith, Run.exec_get_bind, Machine.withLimit] <;>
    cases write m.scopes m.heap <;> rfl

/-- A call may be refused under the smaller limit only. -/
theorem follows_invokeProcedure {ev ev' : Interpreter} {decl : Procedure}
    {this : Option InstanceRef} {values : List Value} {Q : Invocation → Prop}
    (body : C.Follows Q (ev.runBody decl values) (ev'.runBody decl values)) :
    C.Follows Q (ev.invokeProcedure decl this values) (ev'.invokeProcedure decl this values) := by
  intro m limit pair
  have run := fun m => Interpreter.exec_invokeProcedure (m := m) ev decl this values
  have run' := Interpreter.exec_invokeProcedure (m := m.withLimit limit) ev' decl this values
  have le := C.le pair
  by_cases full : m.callLimit ≤ m.callDepth
  · rcases Nat.lt_or_eq_of_le le with less | rfl
    · exact .inl ⟨m.callLimit, C.refusal pair less, by rw [run, if_pos full]⟩
    · refine .inr ⟨?_, ?_, ?_⟩ <;> rw [run, if_pos full]
      · rw [run']
        exact if_pos full
      · exact nofun
  · by_cases full' : limit ≤ m.callDepth
    · omega
    · exact body.between (Interpreter.enter decl this) (Interpreter.leave (.ofMachine m)) m limit
        pair (fun _ _ => rfl) (fun _ _ => rfl)
        ((run m).trans (if_neg full)) (run'.trans (if_neg full'))

variable (C)

def exprJudgement : ExprJudgement Bool .any where
  holds Q x := C.Follows Q (x true) (x false)
  bind first next := first.bind next
  world := follows_worldly
  assign _ := follows_assignWith _ fun
    | .done => trivial
    | .accessor _ => trivial
  guarded holds := follows_guardGetter trivial holds

def judgement : BlockJudgement Bool .any where
  toJudgement := C.exprJudgement.toJudgement
  exprs := C.exprJudgement
  declares _ := True
  modes _ := True
  lift holds := holds
  define _ _ := follows_modifyScopes _
  constant _ := follows_modifyScopes _
  extend _ := by
    refine Follows.bind (follows_worldly (Run.worldly_resolve _)) fun r _ => ?_
    cases r with
    | missing => exact (follows_modifyScopes _).bind fun _ _ => follows_worldly (.pure trivial)
    | _ => exact follows_worldly (.pure trivial)
  settle holds := follows_settle holds
  inside _ holds := follows_inside holds
  errorMode _ := follows_of_blind (fun _ => trivial) (fun _ _ => rfl) fun _ => rfl
  compareMode := follows_of_blind (fun _ => trivial) (fun _ _ => rfl) fun _ => rfl

/-- Two interpreters whose tasks are not told apart. -/
structure Sound (ev : Bool → Interpreter) : Prop where
  expr : ∀ e, C.exprJudgement.Evaluates ev e
  block : ∀ block, C.judgement.Runs ev block
  invoke : C.exprJudgement.Invokes ev
  store : C.exprJudgement.Stores ev
  fuel : ∃ fuel, ∀ i, (ev i).fuel = fuel

variable {C} {ev : Bool → Interpreter}

namespace Sound

theorem serves (sound : C.Sound ev) : C.judgement.Serves ev :=
  ⟨sound.invoke, sound.store, fun _ => sound.fuel⟩

theorem admits (sound : C.Sound ev) (kind : StmtKind) : C.judgement.Admits ev kind :=
  ⟨fun e _ => sound.expr e, fun body _ => sound.block body, fun _ _ => trivial,
    fun _ _ => trivial, kind.obeys_any⟩

theorem rules (sound : C.Sound ev) (task : Task) :
    C.Follows (fun _ => True) ((ev true).rules task) ((ev false).rules task) := by
  cases task with
  | expr e =>
    exact C.exprJudgement.weaken (C.exprJudgement.holds_evalExpr sound.invoke
      (fun e _ => sound.expr e) (fun _ _ => id) fun _ _ _ _ e _ => sound.expr e) fun _ _ => trivial
  | block block =>
    exact BlockJudgement.holds_execBlock sound.serves fun stmt _ => sound.admits stmt.kind
  | invoke decl this values =>
    refine follows_invokeProcedure (C.judgement.weaken (StmtJudgement.holds_runBody
      (fun _ _ => trivial) (fun _ => trivial) (fun _ _ => trivial)
      (fun _ _ => Policy.any_value _) (sound.block decl.body)) fun _ _ => trivial)
  | store container index value name =>
    exact C.exprJudgement.holds_storeElement sound.invoke (fun _ _ => trivial) (Policy.any_value _)
      (fun _ _ => Policy.any_value _) (Policy.any_value _)
      fun _ _ _ _ _ _ => sound.store _ _ _ (fun _ _ => Policy.any_value _) (Policy.any_value _)

end Sound

theorem follows_any {Q : α → Prop} {x y : Run α} (follows : C.Follows (fun _ => True) x y)
    (all : ∀ a, Q a) : C.Follows Q x y := by
  intro m limit pair
  refine (follows m limit pair).imp_right fun same => ?_
  exact ⟨same.same, same.kept, fun a _ => all a⟩

theorem any_invocation (r : Invocation) : Policy.any.invocation r :=
  ⟨Policy.any_value _, fun _ _ => Policy.any_value _⟩

theorem sound_of_tasks (fuel : ∃ fuel, ∀ i, (ev i).fuel = fuel)
    (tasks : ∀ task, C.Follows (fun _ => True) ((ev true).run task) ((ev false).run task)) :
    C.Sound ev :=
  ⟨fun e => follows_any (tasks (.expr e)) Policy.any_value, fun block => tasks (.block block),
    fun decl this values _ _ _ => follows_any (tasks (.invoke decl this values)) any_invocation,
    fun index value name _ _ container _ => tasks (.store container index value name), fuel⟩

theorem follows_within (n : Nat) (task : Task) :
    C.Follows (fun _ => True) ((Interpreter.within n).run task)
      ((Interpreter.within n).run task) := by
  induction n generalizing task with
  | zero => cases task <;> exact follows_worldly (.throw fun _ => trivial)
  | succ n ih =>
    rw [Interpreter.run_within_succ]
    have sound : C.Sound fun _ => .within n := sound_of_tasks ⟨n, fun _ => rfl⟩ ih
    exact sound.rules task

def raised : Ceiling where
  Pair n k := n ≤ k
  Refusal _ := True
  le := id
  refusal _ _ := trivial

def fixed (limit : Nat) : Ceiling where
  Pair n k := n = k
  Refusal n := n = limit
  le same := Nat.le_of_eq same
  refusal same less := absurd same (Nat.ne_of_lt less)

theorem follows_refusing (n limit : Nat) {task : Task} {state : Machine} (stop : Stop)
    (refused : (((Interpreter.within n).run task).exec state).1 =
      .error (.error (.recursion limit))) (other : Task) :
    (fixed limit).Follows (fun _ => True) ((Interpreter.within n).run other)
      (((Interpreter.within n).refusing task state stop).run other) := by
  intro m limit' same
  obtain rfl : m.callLimit = limit' := same
  by_cases here : task = other ∧ m = state
  · obtain ⟨rfl, rfl⟩ := here
    exact .inl ⟨limit, rfl, refused⟩
  · refine (follows_within n other m m.callLimit rfl).imp_right fun same =>
      ⟨?_, same.kept, same.result⟩
    rw [← same.same]
    cases other <;> exact Run.exec_stopAt_of_not here _ stop

end Ceiling

namespace Interpreter

theorem Issues.refused {n limit : Nat} {task task' : Task} {m m' : Machine}
    (issues : (within n).Issues task m task' m')
    (refused : (((within n).run task').exec m').1 = .error (.error (.recursion limit))) :
    (((within n).rules task).exec m).1 = .error (.error (.recursion limit)) := by
  obtain ⟨stop, differs⟩ := issues
  have sound : (Ceiling.fixed limit).Sound fun i =>
      bif i then within n else (within n).refusing task' m' stop :=
    Ceiling.sound_of_tasks ⟨n, fun i => by cases i <;> rfl⟩
      (Ceiling.follows_refusing n limit stop refused)
  obtain ⟨k, rfl, ends⟩ | same := sound.rules task m m.callLimit rfl
  · exact ends
  · refine absurd (same.same.trans ?_) differs
    have kept := same.kept
    dsimp only [cond_true] at kept ⊢
    rw [← kept]
    rfl

end Interpreter

namespace Stage

def run (s : Stage) : Except Stop s.task.Result × Machine :=
  ((Interpreter.within s.bound).run s.task).exec s.state

theorem run_next {n : Nat} {chain : List Procedure} {stmt : Stmt} {rest : Block} {m m' : Machine}
    (ends : ((Interpreter.within n).execStmt stmt).exec m = (.ok .normal, m')) :
    run ⟨n + 1, chain, .block (stmt :: rest), m⟩ = run ⟨n + 1, chain, .block rest, m'⟩ :=
  Run.exec_bind_ok ends

theorem Leads.refused {s s' : Stage} {limit : Nat} (leads : s.Leads s')
    (refused : s'.run.1 = .error (.error (.recursion limit))) :
    s.run.1 = .error (.error (.recursion limit)) := by
  cases leads with
  | @issue n chain task m task' m' issues =>
    rw [run]
    dsimp only
    rw [Interpreter.run_within_succ]
    exact issues.refused refused
  | @next n chain stmt rest m m' ends =>
    rw [run_next ends]
    exact refused

end Stage

namespace Script

theorem follows_runWithin (C : Ceiling) (n : Nat) (program : Block) :
    C.Follows (fun _ => True) (runWithin n program) (runWithin n program) := by
  have hoisted := StmtJudgement.holds_hoist (S := C.judgement.toStmtJudgement) program
    (fun _ _ _ _ => trivial) fun stmt _ => stmt.kind.obeys_any
  exact Ceiling.Follows.bind hoisted fun _ _ => Ceiling.follows_within n (.block program)

end Script

/-- The limit on calls does not show unless a call is refused, and a call that is refused at any
stage of a run ends the run with that error. -/
theorem call_limit_transparent :
    (∀ (n : Nat) (program : Block) (m : Machine) (limit : Nat), m.callLimit ≤ limit →
      (∀ k, ((Script.runWithin n program).exec m).1 ≠ .error (.error (.recursion k))) →
      (Script.runWithin n program).exec (m.withLimit limit) =
        (((Script.runWithin n program).exec m).1,
          ((Script.runWithin n program).exec m).2.withLimit limit)) ∧
    ∀ (s s' : Stage) (limit : Nat), Relation.ReflTransGen Stage.Leads s s' →
      s'.run.1 = .error (.error (.recursion limit)) →
      s.run.1 = .error (.error (.recursion limit)) := by
  refine ⟨fun n program m limit le admitted => ?_, fun s s' limit path refused => ?_⟩
  · obtain ⟨k, -, ends⟩ | same := Script.follows_runWithin .raised n program m limit le
    · exact absurd ends (admitted k)
    · exact same.same
  · induction path using Relation.ReflTransGen.head_induction_on with
    | refl => exact refused
    | head leads _ ih => exact leads.refused ih

/-- `Function f(x)`, whose body is `f = x`, and `r = f(1)`. -/
def Script.callsOnce : Block :=
  let f : Name := ⟨"f"⟩
  let x : Name := ⟨"x"⟩
  [⟨.procedure ⟨f, .function, .everyone, false, [{ name := x }],
      [⟨.assign (.ident f) (.ident x) false, {}⟩]⟩, {}⟩,
    ⟨.assign (.ident ⟨"r"⟩) (.call (.ident f) [.literal (.integer 1)]) false, {}⟩]

theorem one_call_transparent :
    ((Script.runWithin 9 Script.callsOnce).exec { callLimit := 1 }).1.isOk ∧
      (Script.runWithin 9 Script.callsOnce).exec (Machine.withLimit { callLimit := 1 } 32) =
        (((Script.runWithin 9 Script.callsOnce).exec { callLimit := 1 }).1,
          ((Script.runWithin 9 Script.callsOnce).exec { callLimit := 1 }).2.withLimit 32) := by
  have ends : ((Script.runWithin 9 Script.callsOnce).exec { callLimit := 1 }).1.isOk := by
    decide +kernel
  refine ⟨ends, call_limit_transparent.1 9 Script.callsOnce { callLimit := 1 } 32 (by decide) ?_⟩
  intro k refused
  rw [refused] at ends
  cases ends

end ServerScript
