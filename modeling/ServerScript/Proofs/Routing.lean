import ServerScript.Proofs.Discipline

/-! How statements route the flows of the blocks inside of them. A statement takes steps that run no
block and runs its blocks one after another: after a block that ends normally it goes on, and
otherwise it ends, normally at an exit of its own and with the same flow at anything else. -/
namespace ServerScript

def StmtKind.own : StmtKind → Option ExitKind
  | .forRange .. | .forEach .. => some .forLoop
  | .doLoop .. => some .doLoop
  | .whileLoop .. => some .whileLoop
  | .select .. => some .select
  | _ => none

/-- What is left of a flow outside of a construct that keeps an exit to itself. -/
def Flow.outside (own : Option ExitKind) : Flow → Flow
  | .exit kind => if own = some kind then .normal else .exit kind
  | flow => flow

/-- A computation that routes the flows of given blocks, as a function of how blocks are run. -/
inductive Routes (own : Option ExitKind) (bodies : List Block) :
    ((Block → Run Flow) → Run Flow) → Prop where
  | normal : Routes own bodies fun _ => pure .normal
  | stop (stop : Stop) : Routes own bodies fun _ => throw stop
  | step {α : Type} {act : Run α} {f : (Block → Run Flow) → α → Run Flow}
    (next : ∀ a, Routes own bodies fun run => f run a) : Routes own bodies fun run => act >>= f run
  | turn {body : Block} {f : (Block → Run Flow) → Flow → Run Flow} (member : body ∈ bodies)
    (again : Routes own bodies fun run => f run .normal)
    (early : ∀ flow, flow ≠ .normal → ∀ run, f run flow = pure (flow.outside own)) :
    Routes own bodies fun run => run body >>= f run
  | inside {target : Value} {x : (Block → Run Flow) → Run Flow} (inner : Routes own bodies x) :
    Routes own bodies fun run => Run.inside target (x run)

namespace Routes

variable {own : Option ExitKind} {bodies : List Block} {x y : (Block → Run Flow) → Run Flow}

theorem ite {c : Prop} [Decidable c] (yes : Routes own bodies x) (no : Routes own bodies y) :
    Routes own bodies fun run => if c then x run else y run := by
  split
  · exact yes
  · exact no

theorem normally (act : Run Unit) : Routes own bodies fun _ => Interpreter.normally act :=
  step fun _ => normal

theorem body {block : Block} (member : block ∈ bodies) :
    Routes none bodies fun run => run block := by
  have routes : Routes none bodies fun run => run block >>= pure :=
    turn member normal fun flow early _ => by cases flow <;> rfl
  simpa only [bind_pure] using routes

theorem loop {kind : ExitKind} {block : Block} {again : (Block → Run Flow) → Run Flow}
    (member : block ∈ bodies) (more : Routes (some kind) bodies again) :
    Routes (some kind) bodies (fun run => do
      match Interpreter.Turn.ofFlow kind (← run block) with
      | .again => again run
      | .done => return .normal
      | .leave flow => return flow) := by
  refine turn member more fun flow early run => ?_
  cases flow with
  | normal => exact absurd rfl early
  | halt reason => rfl
  | exit other =>
    by_cases same : other = kind
    · simp [Interpreter.Turn.ofFlow, Flow.outside, same]
    · simp [Interpreter.Turn.ofFlow, Flow.outside, same, Ne.symm same]

theorem ends (routes : Routes own bodies x) (run : Block → Run Flow) {P : Flow → Machine → Prop}
    (normal : ∀ m, P .normal m) (leaves : ∀ flow m, P flow m → P flow m.leaveWith)
    (inner : ∀ body ∈ bodies, ∀ m m' flow, (run body).exec m = (.ok flow, m') →
      P (flow.outside own) m')
    {m m' : Machine} {flow : Flow} (ends : (x run).exec m = (.ok flow, m')) : P flow m' := by
  induction routes generalizing m m' flow with
  | normal =>
    cases ends
    exact normal _
  | stop stop => cases ends
  | step next ih =>
    obtain ⟨a, m₁, -, ends⟩ := Run.exists_of_exec_bind_eq_ok ends
    exact ih a ends
  | turn member again early ih =>
    obtain ⟨first, m₁, begun, ends⟩ := Run.exists_of_exec_bind_eq_ok ends
    by_cases onwards : first = .normal
    · subst onwards
      exact ih ends
    · rw [early first onwards] at ends
      cases ends
      exact inner _ member _ _ _ begun
  | @inside target x routes ih =>
    rw [Interpreter.exec_inside] at ends
    obtain ⟨done, rfl⟩ := Prod.mk.inj ends
    exact leaves _ _ (ih (Prod.ext done rfl))

/-- A computation is blind to how a block is run at a state, or it ends with what is left of the
flow of the block. -/
theorem relays (routes : Routes own bodies x) {run run' : Block → Run Flow} {block : Block}
    {start last : Machine} {flow : Flow} (early : flow ≠ .normal)
    (ends : (run block).exec start = (.ok flow, last))
    (same : ∀ body m, ¬(body = block ∧ m = start) → (run' body).exec m = (run body).exec m)
    (m : Machine) :
    (x run').exec m = (x run).exec m ∨ ((x run).exec m).1 = .ok (flow.outside own) := by
  induction routes generalizing m with
  | normal => exact .inl rfl
  | stop stop => exact .inl rfl
  | @step α act f next ih =>
    rw [Run.exec_bind, Run.exec_bind]
    split
    · exact ih _ _
    · exact .inl rfl
  | @turn body f member again leaves ih =>
    by_cases here : body = block ∧ m = start
    · obtain ⟨rfl, rfl⟩ := here
      rw [Run.exec_bind_ok ends, leaves flow early]
      exact .inr rfl
    · rw [Run.exec_bind, Run.exec_bind, same body m here]
      split
      · next first _ =>
        by_cases onwards : first = .normal
        · subst onwards
          exact ih _
        · rw [leaves first onwards, leaves first onwards]
          exact .inl rfl
      · exact .inl rfl
  | @inside target x routes ih =>
    rw [Interpreter.exec_inside, Interpreter.exec_inside]
    rcases ih (m.enterWith target) with same | done
    · exact .inl (by rw [same])
    · exact .inr done

end Routes
def plainExprs : ExprDiscipline where
  Pre _ := True
  Step _ _ := True
  refl _ := trivial
  trans _ _ := trivial
  keeps _ _ := trivial
  moves _ _ := trivial
  assign _ _ := trivial
  enterGetter _ _ := trivial
  leaveGetter _ _ _ := trivial

def plainStmts : StmtDiscipline where
  toDiscipline := plainExprs.toDiscipline
  exprs := plainExprs
  declares _ := True
  modes _ := True
  pre_iff := .rfl
  lift _ _ := trivial
  define _ _ _ := trivial
  constant _ _ := trivial
  extend _ _ _ := trivial
  errorMode _ _ := trivial
  compareMode _ := trivial
  enterWith _ := trivial
  leaveWith _ _ := trivial

namespace Interpreter

variable {ev : Interpreter} {run : Block → Run Flow}

def withBlocks (ev : Interpreter) (run : Block → Run Flow) : Interpreter := { ev with block := run }

def bothBlocks (ev : Interpreter) (run : Block → Run Flow) (same : Bool) : Interpreter :=
  bif same then ev else ev.withBlocks run

theorem evaluates_bothBlocks (e : Expr) :
    plainStmts.judgement.exprs.Evaluates (ev.bothBlocks run) e := by
  intro e' _
  exact ⟨rfl, trivial, fun v _ => Policy.any_value v⟩

theorem serves_bothBlocks : plainStmts.judgement.Serves (ev.bothBlocks run) where
  invokes _ _ _ _ _ _ := fun _ _ =>
    ⟨rfl, trivial, fun _ _ => ⟨Policy.any_value _, fun _ _ => Policy.any_value _⟩⟩
  stores _ _ _ _ _ _ _ := fun _ _ => ⟨rfl, trivial, fun _ _ => trivial⟩
  even _ := ⟨ev.fuel, fun same => by cases same <;> rfl⟩

/-- What is judged without the blocks does not depend on how they are run. -/
theorem blind {x : Interpreter → Run α} {Q : α → Prop}
    (holds : plainStmts.judgement.holds Q fun same => x (ev.bothBlocks run same)) :
    x (ev.withBlocks run) = x ev :=
  Run.ext fun m => (holds m trivial).same

theorem execKind_withBlocks {kind : StmtKind} (none : kind.bodies = []) :
    execKind (ev.withBlocks run) kind = execKind ev kind := by
  have admits : plainStmts.judgement.Admits (ev.bothBlocks run) kind :=
    ⟨fun e _ => evaluates_bothBlocks e, by simp [none], fun _ _ => trivial, fun _ _ => trivial,
      kind.obeys_any⟩
  exact blind (x := fun ev => execKind ev kind)
    (StmtJudgement.holds_execKind serves_bothBlocks admits)

theorem assignName_withBlocks (name : Name) (v : Value) (set : Bool) :
    assignName (ev.withBlocks run) name v set = assignName ev name v set := by
  refine blind (x := fun ev => assignName ev name v set) (Q := fun _ => True) ?_
  exact plainStmts.judgement.exprs.holds_assignName serves_bothBlocks.invokes (Policy.any_value v)

theorem goesOn_withBlocks (condition : Option LoopCondition) (position : TestPosition) :
    goesOn (ev.withBlocks run) condition position = goesOn ev condition position :=
  blind (x := fun ev => goesOn ev condition position)
    (StmtJudgement.holds_goesOn fun e _ => evaluates_bothBlocks e)

theorem anyHolds_withBlocks (mode : CompareMode) (subject : Value) (tests : List CaseTest) :
    anyHolds (ev.withBlocks run) mode subject tests = anyHolds ev mode subject tests :=
  blind (x := fun ev => anyHolds ev mode subject tests)
    (StmtJudgement.holds_anyHolds fun e _ => evaluates_bothBlocks e)

variable (ev)

theorem routes_countTurns (counter : Name) (integral : Bool) (step stop : Float) (body : Block)
    (fuel : Nat) (current : Float) :
    Routes (some .forLoop) [body] fun run =>
      countTurns (ev.withBlocks run) counter integral step stop body fuel current := by
  induction fuel generalizing current with
  | zero => exact .stop _
  | succ fuel ih =>
    simp only [countTurns, assignName_withBlocks]
    exact .step fun _ => .step fun _ => .ite .normal
      (.loop List.mem_cons_self (.step fun _ => ih _))

theorem routes_execFor (counter : Name) (start stop : Expr) (step : Option Expr) (body : Block) :
    Routes (some .forLoop) [body] fun run =>
      execFor (ev.withBlocks run) counter start stop step body := by
  have turns : ∀ start stop step : Value, Routes (some .forLoop) [body] (fun run => do
      if step.toFloat == 0.0 then return .normal
      countTurns (ev.withBlocks run) counter (start.toNumeric.isInt && step.toNumeric.isInt)
        step.toFloat stop.toFloat body ev.fuel start.toFloat) := fun start stop step =>
    .ite .normal (routes_countTurns ev counter _ _ _ body _ _)
  refine .step fun start => .step fun stop => ?_
  cases step with
  | none => exact turns start stop (.integer 1)
  | some step => exact .step fun step => turns start stop step

theorem routes_visitTurns (element : Name) (body : Block) (items : List Value) :
    Routes (some .forLoop) [body] fun run =>
      visitTurns (ev.withBlocks run) element body items := by
  induction items with
  | nil => exact .normal
  | cons item rest ih =>
    simp only [visitTurns, assignName_withBlocks]
    exact .step fun _ => .step fun _ => .loop List.mem_cons_self ih

theorem routes_doTurns (condition : Option LoopCondition) (body : Block) (fuel : Nat) :
    Routes (some .doLoop) [body] fun run => doTurns (ev.withBlocks run) condition body fuel := by
  induction fuel with
  | zero => exact .stop _
  | succ fuel ih =>
    simp only [doTurns, goesOn_withBlocks]
    exact .step fun _ => .step fun _ =>
      .ite (.loop List.mem_cons_self (.step fun _ => .ite ih .normal)) .normal

theorem routes_whileTurns (condition : Expr) (body : Block) (fuel : Nat) :
    Routes (some .whileLoop) [body] fun run =>
      whileTurns (ev.withBlocks run) condition body fuel := by
  induction fuel with
  | zero => exact .stop _
  | succ fuel ih =>
    exact .step fun _ => .step fun _ => .ite (.loop List.mem_cons_self ih) .normal

theorem routes_execBranches {bodies : List Block} {otherwise : Option Block}
    {branches : List Branch}
    (inside : ∀ body ∈ branches.map (·.body) ++ otherwise.toList, body ∈ bodies) :
    Routes none bodies fun run => execBranches (ev.withBlocks run) otherwise branches := by
  induction branches with
  | nil =>
    cases otherwise with
    | none => exact .normal
    | some body => exact .body (inside body List.mem_cons_self)
  | cons branch rest ih =>
    obtain ⟨first, others⟩ := List.forall_mem_cons.mp inside
    exact .step fun _ => .ite (.body first) (ih others)

theorem routes_selectBody {own : Option ExitKind} {bodies : List Block} {subject : Value}
    {otherwise : Option Block} {cases : List CaseClause}
    {next : (Block → Run Flow) → Option Block → Run Flow}
    (inside : ∀ body ∈ cases.map (·.body) ++ otherwise.toList, body ∈ bodies)
    (routes : ∀ chosen : Option Block, (∀ body ∈ chosen, body ∈ bodies) →
      Routes own bodies fun run => next run chosen) :
    Routes own bodies fun run =>
      selectBody (ev.withBlocks run) otherwise subject cases >>= next run := by
  induction cases with
  | nil => exact routes otherwise fun body chosen => inside body (by simpa using chosen)
  | cons clause rest ih =>
    obtain ⟨first, others⟩ := List.forall_mem_cons.mp inside
    have split : ∀ run,
        selectBody (ev.withBlocks run) otherwise subject (clause :: rest) >>= next run =
        get >>= fun m => anyHolds ev m.scopes.compareMode subject clause.tests >>= fun holds =>
          if holds then next run (some clause.body)
          else selectBody (ev.withBlocks run) otherwise subject rest >>= next run := by
      intro run
      simp only [selectBody, anyHolds_withBlocks, bind_assoc]
      refine bind_congr fun m => bind_congr fun holds => ?_
      split <;> simp
    simp only [split]
    refine .step fun m => .step fun holds => .ite (routes _ fun body chosen => ?_) (ih others)
    exact Option.some.inj chosen ▸ first

theorem routes_execSelect {bodies : List Block} {subject : Expr} {cases : List CaseClause}
    {otherwise : Option Block}
    (inside : ∀ body ∈ cases.map (·.body) ++ otherwise.toList, body ∈ bodies) :
    Routes (some .select) bodies fun run =>
      execSelect (ev.withBlocks run) subject cases otherwise := by
  refine .step fun subject => routes_selectBody ev inside fun chosen member => ?_
  cases chosen with
  | none => exact .normal
  | some body =>
    refine .turn (member body rfl) .normal fun flow early run => ?_
    cases flow with
    | normal => exact absurd rfl early
    | halt reason => rfl
    | exit kind => cases kind <;> rfl

theorem routes_execKind {kind : StmtKind} (other : ∀ exit, kind ≠ .exit exit) :
    Routes kind.own kind.bodies fun run => execKind (ev.withBlocks run) kind := by
  have plain : kind.bodies = [] → (∃ act, execKind ev kind = normally act) →
      Routes kind.own kind.bodies fun run => execKind (ev.withBlocks run) kind := by
    rintro none ⟨act, same⟩
    simp only [execKind_withBlocks none, same]
    exact .normally act
  cases kind with
  | choose branches otherwise => exact routes_execBranches ev fun _ => id
  | forRange counter start stop step body => exact routes_execFor ev counter start stop step body
  | forEach element group body =>
    exact .step fun _ => .step fun _ => routes_visitTurns ev element body _
  | doLoop condition body => exact routes_doTurns ev condition body _
  | whileLoop condition body => exact routes_whileTurns ev condition body _
  | select subject cases otherwise => exact routes_execSelect ev fun _ => id
  | withBlock object body => exact .step fun _ => .inside (.body List.mem_cons_self)
  | exit kind => exact absurd rfl (other kind)
  | optionExplicit => exact .normal
  | _ => exact plain rfl ⟨_, rfl⟩

end Interpreter
end ServerScript
