import ServerScript.Proofs.Ceiling
import ServerScript.Proofs.Requests

/-! What lasts to the end of a run. A fault is caught by nothing that a script can do, and a stop
that was asked for is taken back by nothing. Both are marks that the end of a task bears, and a
task that issues one whose end bears a mark bears it at its own end. Two runs are compared for
this, one of which answers the inner task with some other stop: they are told apart only if the
mark shows at the end of the first one. -/
namespace ServerScript

def Run.stop? : Except Stop α → Option Stop
  | .ok _ => none
  | .error stop => some stop

theorem Run.stop?_eq_some_iff {result : Except Stop α} {stop : Stop} :
    stop? result = some stop ↔ result = .error stop := by
  cases result <;> simp [stop?]

/-- A property of the end of a computation that shows in its stop and in the control of the
request. What is run after a result keeps it, and so does a statement that resumes an error. -/
structure Mark where
  shows : Option Stop → Control → Prop
  later : ∀ {stop c c'}, shows none c → c.Continues c' → shows stop c'
  resumed : ∀ {e c}, shows (some (.error e)) c → shows none c

namespace Mark

def fault (f : Fault) : Mark where
  shows stop _ := stop = some (.fault f)
  later := nofun
  resumed := nofun

def halt (reason : Halt) : Mark where
  shows _ c := c.halt = some reason
  later asked continues := continues reason asked
  resumed asked := asked

variable (M : Mark)

def On (ends : Except Stop α × Machine) : Prop := M.shows (Run.stop? ends.1) ends.2.control

/-- Two runs from a state that are not told apart unless the end of the first one bears the mark. -/
structure Match (Q : α → Prop) (x y : Run α) (m : Machine) : Prop where
  continues : m.control.Continues (x.exec m).2.control
  result : ∀ a, (x.exec m).1 = .ok a → Q a
  lasts : M.On (x.exec m) ∨ y.exec m = x.exec m

def Follows (Q : α → Prop) (x y : Run α) : Prop := ∀ m, M.Match Q x y m

variable {M} {Q : α → Prop} {R : β → Prop}

theorem On.bind {x : Run α} {f : α → Run β} {m : Machine} (shown : M.On (x.exec m))
    (continues : ∀ a m', x.exec m = (.ok a, m') →
      m'.control.Continues ((f a).exec m').2.control) : M.On ((x >>= f).exec m) := by
  cases done : (x.exec m).1 with
  | error stop =>
    have ends : x.exec m = (.error stop, (x.exec m).2) := Prod.ext done rfl
    rw [On, Run.exec_bind_error ends]
    rw [On, done] at shown
    exact shown
  | ok a =>
    have ends : x.exec m = (.ok a, (x.exec m).2) := Prod.ext done rfl
    rw [On, Run.exec_bind_ok ends]
    rw [On, done] at shown
    exact M.later shown (continues a _ ends)

theorem Follows.bind {x y : Run α} {f g : α → Run β} (first : M.Follows Q x y)
    (next : ∀ a, Q a → M.Follows R (f a) (g a)) : M.Follows R (x >>= f) (y >>= g) := by
  intro m
  have begun := first m
  have shown : M.On (x.exec m) → M.On ((x >>= f).exec m) := (·.bind fun a m' ends =>
    (next a (begun.result a (congrArg Prod.fst ends)) m').continues)
  cases done : (x.exec m).1 with
  | error stop =>
    have ends : x.exec m = (.error stop, (x.exec m).2) := Prod.ext done rfl
    refine ⟨?_, ?_, begun.lasts.imp shown fun same => ?_⟩ <;> rw [Run.exec_bind_error ends]
    · exact begun.continues
    · exact nofun
    · rw [Run.exec_bind_error (same.trans ends)]
  | ok a =>
    have ends : x.exec m = (.ok a, (x.exec m).2) := Prod.ext done rfl
    have more := next a (begun.result a done) (x.exec m).2
    refine ⟨?_, ?_, begun.lasts.elim (fun on => .inl (shown on)) fun same => ?_⟩ <;>
      rw [Run.exec_bind_ok ends]
    · exact begun.continues.trans more.continues
    · exact more.result
    · rw [Run.exec_bind_ok (same.trans ends)]
      exact more.lasts

theorem follows_worldly {act : Run α} (worldly : act.Worldly .any Q) : M.Follows Q act act := by
  intro m
  have moves := worldly.moves m m.carries_any
  exact ⟨moves.control, fun _ => (worldly.ends m m.carries_any).result, .inr rfl⟩

theorem follows_of_control {act : Run α} (result : ∀ a, Q a)
    (kept : ∀ m, (act.exec m).2.control = m.control) : M.Follows Q act act := by
  intro m
  refine ⟨?_, fun a _ => result a, .inr rfl⟩
  rw [kept m]
  exact .refl _

theorem Follows.between {x y u v : Run α} (inner : M.Follows Q x y)
    (enter leave : Machine → Machine) (m : Machine)
    (before : ∀ m, (enter m).control = m.control) (after : ∀ m, (leave m).control = m.control)
    (first : u.exec m = ((x.exec (enter m)).1, leave (x.exec (enter m)).2))
    (second : v.exec m = ((y.exec (enter m)).1, leave (y.exec (enter m)).2)) :
    M.Match Q u v m := by
  have match' := inner (enter m)
  refine ⟨?_, ?_, ?_⟩
  · rw [first, after, ← before m]
    exact match'.continues
  · rw [first]
    exact match'.result
  · rw [second, first, On, after]
    exact match'.lasts.imp_right fun same => by rw [same]

theorem follows_guardGetter {ref : InstanceRef} {name : Name} {x y : Run Value}
    {Q : Value → Prop} (empty : Q .empty) (inner : M.Follows Q x y) :
    M.Follows Q (Interpreter.guardGetter ref name x) (Interpreter.guardGetter ref name y) := by
  intro m
  cases starts : m.startsGetter ref.cell name with
  | false =>
    have run := Interpreter.exec_guardGetter_of_running (m := m) starts
    refine ⟨?_, ?_, .inr (by rw [run, run])⟩ <;> rw [run]
    · exact .refl _
    · exact fun a same => Except.ok.inj same ▸ empty
  | true =>
    exact inner.between (·.enterGetter ref.cell name) (·.leaveGetter ref.cell name) m
      (fun _ => rfl) (fun _ => rfl) (Interpreter.exec_guardGetter starts x)
      (Interpreter.exec_guardGetter starts y)

theorem control_settle (range : Range) (x : Run α) (m : Machine) :
    ((Interpreter.settle range x).exec m).2.control = (x.exec m).2.control := by
  rw [Interpreter.exec_settle]
  rcases x.exec m with ⟨⟨⟨e⟩ | ⟨f⟩ | _⟩ | a, m'⟩
  · dsimp only
    split <;> rfl
  · rfl
  · rfl
  · rfl

theorem On.settle {x : Run α} {m : Machine} (shown : M.On (x.exec m)) (range : Range) :
    M.On ((Interpreter.settle range x).exec m) := by
  rw [Interpreter.exec_settle]
  generalize x.exec m = ends at shown
  rcases ends with ⟨⟨⟨e⟩ | ⟨f⟩ | _⟩ | a, m'⟩
  · dsimp only
    split
    · exact shown
    · exact M.resumed shown
  · exact shown
  · exact shown
  · exact shown

theorem follows_settle {x y : Run α} {range : Range} (inner : M.Follows (fun _ => True) x y) :
    M.Follows (fun _ => True) (Interpreter.settle range x) (Interpreter.settle range y) := by
  refine fun m => ⟨?_, fun _ _ => trivial, ?_⟩
  · rw [control_settle]
    exact (inner m).continues
  · refine (inner m).lasts.imp (·.settle range) fun same => ?_
    rw [Interpreter.exec_settle, Interpreter.exec_settle, same]

theorem follows_inside {x y : Run α} {target : Value} (inner : M.Follows Q x y) :
    M.Follows Q (Run.inside target x) (Run.inside target y) := by
  intro m
  exact inner.between (·.enterWith target) (·.leaveWith) m (fun _ => rfl) (fun _ => rfl)
    (Interpreter.exec_inside target x) (Interpreter.exec_inside target y)

theorem follows_modifyScopes (change : Scopes → Except EvalError Scopes) :
    M.Follows (fun _ => True) (Run.modifyScopes change) (Run.modifyScopes change) := by
  refine follows_of_control (fun _ => trivial) fun m => ?_
  rw [Run.modifyScopes, Run.exec_get_bind]
  cases change m.scopes <;> rfl

theorem follows_assignWith (write : Scopes → Heap → Except EvalError (Scopes × Heap × Assigned))
    {Q : Assigned → Prop} (result : ∀ a, Q a) :
    M.Follows Q (Run.assignWith write) (Run.assignWith write) := by
  refine follows_of_control result fun m => ?_
  rw [Run.assignWith, Run.exec_get_bind]
  cases write m.scopes m.heap <;> rfl

theorem follows_invokeProcedure {ev ev' : Interpreter} {decl : Procedure}
    {this : Option InstanceRef} {values : List Value} {Q : Invocation → Prop}
    (body : M.Follows Q (ev.runBody decl values) (ev'.runBody decl values)) :
    M.Follows Q (ev.invokeProcedure decl this values) (ev'.invokeProcedure decl this values) := by
  intro m
  have run := fun ev => Interpreter.exec_invokeProcedure (m := m) ev decl this values
  by_cases full : m.callLimit ≤ m.callDepth
  · refine ⟨?_, ?_, .inr (by rw [run, run, if_pos full, if_pos full])⟩ <;> rw [run, if_pos full]
    · exact .refl _
    · exact nofun
  · exact body.between (Interpreter.enter decl this) (Interpreter.leave (.ofMachine m)) m
      (fun _ => rfl) (fun _ => rfl) ((run ev).trans (if_neg full)) ((run ev').trans (if_neg full))

variable (M)

def exprJudgement : ExprJudgement Bool .any where
  holds Q x := M.Follows Q (x true) (x false)
  bind first next := first.bind next
  world := follows_worldly
  assign _ := follows_assignWith _ fun
    | .done => trivial
    | .accessor _ => trivial
  guarded holds := follows_guardGetter trivial holds

def judgement : BlockJudgement Bool .any where
  toJudgement := M.exprJudgement.toJudgement
  exprs := M.exprJudgement
  declares _ := True
  modes _ := True
  lift holds := holds
  define _ _ := follows_modifyScopes _
  constant _ := follows_modifyScopes _
  extend _ := by
    refine Follows.bind (follows_worldly (Run.worldly_resolve _)) fun r _ => ?_
    cases r with
    | missing => exact (follows_modifyScopes _).bind fun _ _ => follows_worldly (.pure trivial)
    | _ => exact follows_worldly (.pure trivial)
  settle holds := follows_settle holds
  inside _ holds := follows_inside holds
  errorMode _ := follows_of_control (fun _ => trivial) fun _ => rfl
  compareMode := follows_of_control (fun _ => trivial) fun _ => rfl

variable {M}

theorem follows_any {Q : α → Prop} {x y : Run α} (follows : M.Follows (fun _ => True) x y)
    (all : ∀ a, Q a) : M.Follows Q x y := by
  intro m
  exact ⟨(follows m).continues, fun a _ => all a, (follows m).lasts⟩

theorem follows_rules (ev : Bool → Interpreter) (fuel : ∃ fuel, ∀ i, (ev i).fuel = fuel)
    (tasks : ∀ task, M.Follows (fun _ => True) ((ev true).run task) ((ev false).run task))
    (task : Task) : M.Follows (fun _ => True) ((ev true).rules task) ((ev false).rules task) := by
  have exprs : ∀ e, M.exprJudgement.Evaluates ev e := fun e =>
    follows_any (tasks (.expr e)) Policy.any_value
  have blocks : ∀ block, M.judgement.Runs ev block := fun block => tasks (.block block)
  have invokes : M.exprJudgement.Invokes ev := fun decl this values _ _ _ =>
    follows_any (tasks (.invoke decl this values)) Ceiling.any_invocation
  have stores : M.exprJudgement.Stores ev := fun index value name _ _ container _ =>
    tasks (.store container index value name)
  have serves : M.judgement.Serves ev := ⟨invokes, stores, fun _ => fuel⟩
  cases task with
  | expr e =>
    exact M.exprJudgement.weaken (M.exprJudgement.holds_evalExpr invokes
      (fun e _ => exprs e) (fun _ _ => id) fun _ _ _ _ e _ => exprs e) fun _ _ => trivial
  | block block =>
    exact BlockJudgement.holds_execBlock serves fun stmt _ =>
      ⟨fun e _ => exprs e, fun body _ => blocks body, fun _ _ => trivial,
        fun _ _ => trivial, stmt.kind.obeys_any⟩
  | invoke decl this values =>
    exact follows_invokeProcedure (M.judgement.weaken (StmtJudgement.holds_runBody
      (fun _ _ => trivial) (fun _ => trivial) (fun _ _ => trivial)
      (fun _ _ => Policy.any_value _) (blocks decl.body)) fun _ _ => trivial)
  | store container index value name =>
    exact M.exprJudgement.holds_storeElement invokes (fun _ _ => trivial) (Policy.any_value _)
      (fun _ _ => Policy.any_value _) (Policy.any_value _)
      fun _ _ _ _ _ _ => stores _ _ _ (fun _ _ => Policy.any_value _) (Policy.any_value _)

theorem follows_refusing (n : Nat) {task : Task} {state : Machine} (stop : Stop)
    (shown : M.On (((Interpreter.within n).run task).exec state)) (other : Task) :
    M.Follows (fun _ => True) ((Interpreter.within n).run other)
      (((Interpreter.within n).refusing task state stop).run other) := by
  refine fun m => ⟨(Interpreter.continues_run n other m).control, fun _ _ => trivial, ?_⟩
  by_cases here : task = other ∧ m = state
  · obtain ⟨rfl, rfl⟩ := here
    exact .inl shown
  · refine .inr ?_
    cases other <;> exact Run.exec_stopAt_of_not here _ stop

end Mark

theorem Interpreter.Issues.lasts {n : Nat} {M : Mark} {task task' : Task} {m m' : Machine}
    (issues : (within n).Issues task m task' m') (shown : M.On (((within n).run task').exec m')) :
    M.On (((within n).rules task).exec m) := by
  obtain ⟨stop, differs⟩ := issues
  have follows := Mark.follows_rules
    (fun i => bif i then within n else (within n).refusing task' m' stop)
    ⟨n, fun i => by cases i <;> rfl⟩ (Mark.follows_refusing n stop shown) task
  exact (follows m).lasts.resolve_right differs

namespace Stage

theorem Leads.lasts {s s' : Stage} {M : Mark} (leads : s.Leads s') (shown : M.On s'.run) :
    M.On s.run := by
  cases leads with
  | @issue n chain task m task' m' issues =>
    rw [run]
    dsimp only
    rw [Interpreter.run_within_succ]
    exact issues.lasts shown
  | @next n chain stmt rest m m' ends =>
    change M.On (((Interpreter.within n).execBlock (stmt :: rest)).exec m)
    rw [Interpreter.execBlock, Run.exec_bind_ok ends]
    exact shown

variable {s s' : Stage} (path : Relation.ReflTransGen Leads s s')

include path

theorem lasts {M : Mark} (shown : M.On s'.run) : M.On s.run := by
  induction path using Relation.ReflTransGen.head_induction_on with
  | refl => exact shown
  | head leads _ ih => exact leads.lasts ih

theorem continues : s.state.Continues s'.state := by
  induction path with
  | refl => exact .refl _
  | tail _ leads ih => exact ih.trans leads.continues

end Stage

/-- A piece of a document starts a stage of a run. -/
inductive Section.Starts (m : Machine) : Section → Stage → Prop where
  | code {program} : Starts m (.code program) ⟨Interpreter.bound, [], .block program, m⟩
  | output {e range m'} (inTime : Run.checkDeadline.exec m = (.ok ⟨⟩, m')) :
    Starts m (.output e range) ⟨Interpreter.bound, [], .expr e, m'⟩

namespace Document

/-- Running a document starts a stage in one of its pieces, when those ahead of it were run without
a stop. -/
inductive Starts (document : Document) (m : Machine) (s : Stage) : Prop where
  | piece {m₁ m₂ before piece rest}
    (hoisted : (Interpreter.hoist document.statements).exec m = (.ok ⟨⟩, m₁))
    (sections : document.sections = before ++ piece :: rest)
    (passed : (renderSections before).exec m₁ = (.ok none, m₂)) (starts : piece.Starts m₂ s)

/-- Handling an event starts the procedure that the document declares for it. -/
inductive Handles (document : Document) (name : String) (m : Machine) : Stage → Prop where
  | call {m₁ id decl}
    (hoisted : (Interpreter.hoist document.statements).exec m = (.ok ⟨⟩, m₁))
    (declared : m₁.scopes.lookup m₁.heap (Name.ofText name) =
      some (.callable id (.procedure decl))) :
    Handles document name m ⟨Interpreter.bound, [], .invoke decl none [], m₁⟩

theorem exec_renderSections_append {before : List Section} {m m' : Machine}
    (passed : (renderSections before).exec m = (.ok none, m')) (rest : List Section) :
    (renderSections (before ++ rest)).exec m = (renderSections rest).exec m' := by
  induction before generalizing m with
  | nil =>
    obtain ⟨-, rfl⟩ := Prod.mk.inj passed
    rfl
  | cons piece before ih =>
    obtain ⟨stop, m₁, begun, passed⟩ := Run.exists_of_exec_bind_eq_ok passed
    rw [List.cons_append, renderSections, Run.exec_bind_ok begun]
    cases stop with
    | none => exact ih passed
    | some reason => cases passed

end Document

variable {M : Mark} {s : Stage} {m : Machine}

theorem Section.Starts.lasts_output {e : Expr} {range : Range}
    (starts : (Section.output e range).Starts m s) (shown : M.On s.run) :
    M.On ((Script.output e range).exec m) := by
  cases starts with
  | @output _ _ m' inTime =>
    refine Mark.On.settle ?_ range
    rw [Run.exec_bind_ok inTime]
    exact shown

theorem Section.Starts.lasts {piece : Section} (starts : piece.Starts m s) (shown : M.On s.run) :
    M.On ((Document.renderSection piece).exec m) := by
  cases starts with
  | code =>
    refine shown.bind fun flow m' _ => ?_
    cases flow <;> exact .refl _
  | output inTime =>
    refine ((Section.Starts.output inTime).lasts_output shown).bind fun found m' _ => ?_
    cases found <;> exact .refl _

theorem Document.Starts.lasts {document : Document} (starts : document.Starts m s)
    (shown : M.On s.run) : M.On (document.render.exec m) := by
  obtain ⟨hoisted, sections, passed, starts⟩ := starts
  rw [render, Run.exec_bind_ok hoisted, sections, exec_renderSections_append passed,
    renderSections]
  refine (starts.lasts shown).bind fun stop m' _ => ?_
  cases stop with
  | none => exact (continues_renderSections _ m').control
  | some reason => exact .refl _

theorem Script.exec_call? {name : String} {id : Nat} {decl : Procedure}
    (declared : m.scopes.lookup m.heap (Name.ofText name) = some (.callable id (.procedure decl))) :
    (call? name []).exec m =
      (interpreter.invoke decl none [] >>= fun result => pure (some result.value)).exec m := by
  have found : (Run.lookup (Name.ofText name)).exec m =
      (.ok (some (.callable id (.procedure decl))), m) := by rw [← declared]; rfl
  rw [call?, Run.exec_bind_ok found]
  have called : interpreter.callProcedure decl none ⟨[], []⟩ =
      interpreter.invoke decl none [] >>= fun result => pure result.value := by
    have none : ∀ result : Invocation, interpreter.writeBackAll decl.params [] result.params =
        pure ⟨⟩ := fun result => by
      rw [Interpreter.writeBackAll.eq_def]
      cases decl.params <;> rfl
    rw [Interpreter.callProcedure, Interpreter.callWith]
    simp only [List.length_nil, Nat.not_lt_zero, if_false, none, pure_bind]
  dsimp only
  rw [called, bind_assoc]
  simp only [pure_bind]

theorem Document.Handles.lasts {document : Document} {name : String}
    (handles : document.Handles name m s) (shown : M.On s.run) :
    M.On ((document.handle name).exec m) := by
  obtain ⟨hoisted, declared⟩ := handles
  rw [handle, Run.exec_bind_ok hoisted, Run.discard_eq]
  refine Mark.On.bind ?_ fun _ _ _ => .refl _
  rw [Script.exec_call? declared]
  exact shown.bind fun _ _ _ => .refl _

end ServerScript
