import ServerScript.Proofs.Judgement
import ServerScript.Eval.Run

/-! Changes of a state that computations may make, as judgements. A family has two members here,
so that a judgement also says that two computations cannot be told apart; the two are the same
computation where only changes matter. -/
namespace ServerScript

/-- The states of interest, and the changes that are allowed to them. -/
structure Discipline where
  Pre : Machine → Prop
  Step : Machine → Machine → Prop
  refl : ∀ {m}, Pre m → Step m m
  trans : ∀ {m m' m''}, Step m m' → Step m' m'' → Step m m''
  keeps : ∀ {m m'}, Pre m → Step m m' → Pre m'
  moves : ∀ {m m'}, Pre m → m.Moves .any m' → Step m m'

structure ExprDiscipline extends Discipline where
  assign : ∀ {m : Machine} {name v scopes heap result}, Pre m →
    m.scopes.assign m.heap name v = .ok (scopes, heap, result) → Step m { m with scopes, heap }
  enterGetter : ∀ {m : Machine} {cell name}, Pre m →
    m.startsGetter cell name → Pre (m.enterGetter cell name)
  leaveGetter : ∀ {m m' : Machine} {cell name}, Pre m → m.startsGetter cell name →
    Step (m.enterGetter cell name) m' → Step m (m'.leaveGetter cell name)

structure StmtDiscipline extends Discipline where
  exprs : ExprDiscipline
  declares : Name → Prop
  modes : Bool → Prop
  pre_iff : ∀ {m}, exprs.Pre m ↔ Pre m
  lift : ∀ {m m'}, Pre m → exprs.Step m m' → Step m m'
  define : ∀ {m : Machine} {name v scopes}, Pre m → declares name →
    m.scopes.define name v = .ok scopes → Step m { m with scopes }
  constant : ∀ {m : Machine} {name v scopes}, Pre m →
    m.scopes.setConstant name v = .ok scopes → Step m { m with scopes }
  extend : ∀ {m : Machine} {name v scopes}, Pre m →
    m.scopes.resolve m.heap name = .missing → m.scopes.define name v = .ok scopes →
    Step m { m with scopes }
  errorMode : ∀ {m : Machine} {resumeNext err errorRange}, Pre m →
    resumeNext = m.resumeNext ∨ modes resumeNext →
    Step m { m with resumeNext, err, errorRange }
  compareMode : ∀ {m : Machine} {mode}, Pre m →
    Step m { m with scopes := { m.scopes with compareMode := mode } }
  enterWith : ∀ {m : Machine} {target}, Pre m → Pre (m.enterWith target)
  leaveWith : ∀ {m m' : Machine} {target}, Pre m → Step (m.enterWith target) m' →
    Step m m'.leaveWith

namespace Discipline

variable (D : Discipline)

/-- Two computations that end alike after a change that is allowed, with a result that satisfies a
condition. -/
structure Agree (Q : α → Prop) (x y : Run α) (m : Machine) : Prop where
  same : x.exec m = y.exec m
  step : D.Step m (y.exec m).2
  result : ∀ a, (y.exec m).1 = .ok a → Q a

variable {D} {Q : α → Prop} {R : β → Prop} {m : Machine}

theorem Agree.bind {x y : Run α} {f g : α → Run β} (pre : D.Pre m) (first : D.Agree Q x y m)
    (next : ∀ a, Q a → ∀ m, D.Pre m → D.Agree R (f a) (g a) m) :
    D.Agree R (x >>= f) (y >>= g) m := by
  cases done : (y.exec m).1 with
  | ok a =>
    have ends : y.exec m = (.ok a, (y.exec m).2) := Prod.ext done rfl
    have more := next a (first.result a done) _ (D.keeps pre first.step)
    refine ⟨?_, ?_, ?_⟩
    · rw [Run.exec_bind_ok (first.same.trans ends), Run.exec_bind_ok ends, more.same]
    · rw [Run.exec_bind_ok ends]
      exact D.trans first.step more.step
    · rw [Run.exec_bind_ok ends]
      exact more.result
  | error s =>
    have ends : y.exec m = (.error s, (y.exec m).2) := Prod.ext done rfl
    refine ⟨?_, ?_, ?_⟩
    · rw [Run.exec_bind_error (first.same.trans ends), Run.exec_bind_error ends]
    · rw [Run.exec_bind_error ends]
      exact first.step
    · rw [Run.exec_bind_error ends]
      exact nofun

variable (D)

def judgement : Judgement Bool .any where
  holds Q x := ∀ m, D.Pre m → D.Agree Q (x false) (x true) m
  bind first next := fun m pre => (first m pre).bind pre next
  world act := fun m pre =>
    ⟨rfl, D.moves pre (act.moves m m.carries_any), fun _ => (act.ends m m.carries_any).result⟩

end Discipline

namespace ExprDiscipline

variable (D : ExprDiscipline)

theorem agree_assign {name : Name} {v : Value} {m : Machine} (pre : D.Pre m) (Q : Assigned → Prop)
    (all : ∀ a, Q a) : D.Agree Q (Run.assignWith fun scopes h => scopes.assign h name v)
      (Run.assignWith fun scopes h => scopes.assign h name v) m := by
  refine ⟨rfl, ?_, fun a _ => all a⟩
  rw [Run.assignWith, Run.exec_get_bind]
  split
  · rename_i done
    exact D.assign pre done
  · exact D.refl pre

theorem agree_guardGetter {ref : InstanceRef} {name : Name} {x y : Run Value} {m : Machine}
    {Q : Value → Prop} (empty : Q .empty) (pre : D.Pre m)
    (agree : ∀ m, D.Pre m → D.Agree Q x y m) :
    D.Agree Q (Interpreter.guardGetter ref name x) (Interpreter.guardGetter ref name y) m := by
  cases starts : m.startsGetter ref.cell name with
  | false =>
    have run := Interpreter.exec_guardGetter_of_running starts
    refine ⟨by rw [run, run], ?_, ?_⟩ <;> rw [run]
    · exact D.refl pre
    · exact fun a same => Except.ok.inj same ▸ empty
  | true =>
    have run := Interpreter.exec_guardGetter starts
    have inner := agree _ (D.enterGetter pre starts)
    refine ⟨by rw [run, run, inner.same], ?_, ?_⟩ <;> rw [run]
    · exact D.leaveGetter pre starts inner.step
    · exact inner.result

def judgement : ExprJudgement Bool .any where
  toJudgement := D.toDiscipline.judgement
  assign _ := fun _ pre => D.agree_assign pre _ fun
    | .done => trivial
    | .accessor _ => trivial
  guarded holds := fun _ pre => D.agree_guardGetter trivial pre holds

end ExprDiscipline

namespace StmtDiscipline

variable (D : StmtDiscipline)

theorem agree_modifyScopes {change : Scopes → Except EvalError Scopes} {m : Machine} (pre : D.Pre m)
    (step : ∀ scopes, change m.scopes = .ok scopes → D.Step m { m with scopes }) :
    D.Agree (fun _ => True) (Run.modifyScopes change) (Run.modifyScopes change) m := by
  refine ⟨rfl, ?_, fun _ _ => trivial⟩
  rw [Run.modifyScopes, Run.exec_get_bind]
  split
  · rename_i scopes done
    exact step scopes done
  · exact D.refl pre

theorem agree_extend {name : Name} {v : Value} {m : Machine} (pre : D.Pre m) :
    D.Agree (fun _ => True) (Run.extend name v) (Run.extend name v) m := by
  have resolved : (Run.resolve name).exec m = (.ok (m.scopes.resolve m.heap name), m) := rfl
  cases found : m.scopes.resolve m.heap name with
  | value w =>
    rw [found] at resolved
    refine ⟨rfl, ?_, fun _ _ => trivial⟩
    rw [Run.extend, Run.exec_bind_ok resolved]
    exact D.refl pre
  | member ref =>
    rw [found] at resolved
    refine ⟨rfl, ?_, fun _ _ => trivial⟩
    rw [Run.extend, Run.exec_bind_ok resolved]
    exact D.refl pre
  | missing =>
    rw [found] at resolved
    have defined : D.Agree (fun _ => True) (Run.modifyScopes (·.define name v))
        (Run.modifyScopes (·.define name v)) m :=
      D.agree_modifyScopes pre fun _ done => D.extend pre found done
    have done := defined.bind pre fun _ _ m pre => (⟨rfl, D.refl pre, fun _ _ => trivial⟩ :
      D.Agree (fun _ => True) (pure true) (pure true) m)
    refine ⟨rfl, ?_, fun _ _ => trivial⟩
    rw [Run.extend, Run.exec_bind_ok resolved]
    exact done.step

theorem agree_settle {x y : Run α} {range : Range} {m : Machine} (pre : D.Pre m)
    (agree : D.Agree (fun _ => True) x y m) :
    D.Agree (fun _ => True) (Interpreter.settle range x) (Interpreter.settle range y) m := by
  have step := agree.step
  refine ⟨?_, ?_, fun _ _ => trivial⟩
  · rw [Interpreter.exec_settle, Interpreter.exec_settle, agree.same]
  · rw [Interpreter.exec_settle]
    generalize y.exec m = ends at step
    have after := D.keeps pre step
    rcases ends with ⟨⟨⟨e⟩ | ⟨f⟩ | _⟩ | a, m'⟩
    · dsimp only
      split
      · exact D.trans step (D.errorMode after (.inl rfl))
      · exact D.trans step (D.errorMode after (.inl rfl))
    · exact step
    · exact step
    · exact step

theorem agree_inside {x y : Run α} {target : Value} {m : Machine} (pre : D.Pre m)
    (agree : ∀ m, D.Pre m → D.Agree (fun _ => True) x y m) :
    D.Agree (fun _ => True) (Run.inside target x) (Run.inside target y) m := by
  have inner := agree (m.enterWith target) (D.enterWith pre)
  refine ⟨?_, ?_, fun _ _ => trivial⟩
  · rw [Interpreter.exec_inside, Interpreter.exec_inside, inner.same]
  · rw [Interpreter.exec_inside]
    exact D.leaveWith pre inner.step

def judgement : BlockJudgement Bool .any where
  toJudgement := D.toDiscipline.judgement
  exprs := D.exprs.judgement
  declares := D.declares
  modes := D.modes
  lift holds := fun m pre =>
    have agree := holds m (D.pre_iff.mpr pre)
    ⟨agree.same, D.lift pre agree.step, agree.result⟩
  define declares _ := fun _ pre => D.agree_modifyScopes pre fun _ => D.define pre declares
  constant _ := fun _ pre => D.agree_modifyScopes pre fun _ => D.constant pre
  extend _ := fun _ pre => D.agree_extend pre
  settle holds := fun m pre => D.agree_settle pre (holds m pre)
  inside _ holds := fun _ pre => D.agree_inside pre holds
  errorMode allowed := fun _ pre => ⟨rfl, D.errorMode pre (.inr allowed), fun _ _ => trivial⟩
  compareMode := fun _ pre => ⟨rfl, D.compareMode pre, fun _ _ => trivial⟩

end StmtDiscipline

/-- The disciplines of a run, one for each chain of procedures that are running, innermost first.
A block fits a chain if it may stand in the body of its innermost procedure. -/
structure Regime where
  stmts : List Procedure → StmtDiscipline
  fits : List Procedure → Block → Prop
  rest : ∀ {chain stmt rest}, fits chain (stmt :: rest) → fits chain rest
  inner : ∀ {chain block stmt body}, fits chain block → stmt ∈ block → body ∈ stmt.kind.bodies →
    fits chain body
  declared : ∀ {chain block stmt name}, fits chain block → stmt ∈ block →
    name ∈ stmt.kind.declared → (stmts chain).declares name
  modes : ∀ {chain block stmt resumeNext}, fits chain block → stmt ∈ block →
    resumeNext ∈ stmt.kind.modes → (stmts chain).modes resumeNext
  body : ∀ chain (decl : Procedure), fits (decl :: chain) decl.body
  params : ∀ chain (decl : Procedure), ∀ param ∈ decl.params,
    (stmts (decl :: chain)).declares param.name
  result : ∀ chain (decl : Procedure), decl.kind.returnsValue →
    (stmts (decl :: chain)).declares decl.name
  scalars : ∀ chain (decl : Procedure), ∀ name ∈ blockScalars decl.body,
    (stmts (decl :: chain)).declares name
  enter : ∀ {chain m decl this}, (stmts chain).Pre m → m.callDepth < m.callLimit →
    (stmts (decl :: chain)).Pre (Interpreter.enter decl this m)
  leave : ∀ {chain m m' decl this}, (stmts chain).Pre m →
    (stmts (decl :: chain)).Step (Interpreter.enter decl this m) m' →
    (stmts chain).exprs.Step m (Interpreter.leave (.ofMachine m) m')

namespace Regime

variable (R : Regime)

def Pre (chain : List Procedure) (m : Machine) : Prop := (R.stmts chain).Pre m

def expr (chain : List Procedure) : ExprJudgement Bool .any := (R.stmts chain).exprs.judgement

def stmt (chain : List Procedure) : BlockJudgement Bool .any := (R.stmts chain).judgement

/-- Two interpreters that agree on everything that may be run under a chain. -/
structure Sound (chain : List Procedure) (ev : Bool → Interpreter) : Prop where
  expr : ∀ e, (R.expr chain).Evaluates ev e
  block : ∀ block, R.fits chain block → (R.stmt chain).Runs ev block
  invoke : (R.expr chain).Invokes ev
  store : (R.expr chain).Stores ev
  fuel : ∃ fuel, ∀ i, (ev i).fuel = fuel

variable {R} {ev : Bool → Interpreter} {chain : List Procedure}

namespace Sound

theorem serves (sound : R.Sound chain ev) : (R.stmt chain).Serves ev :=
  ⟨sound.invoke, sound.store, fun _ => sound.fuel⟩

theorem admits (sound : R.Sound chain ev) {block : Block} (fits : R.fits chain block) :
    ∀ stmt ∈ block, (R.stmt chain).Admits ev stmt.kind := by
  intro stmt member
  refine ⟨fun e _ => sound.expr e, fun body inside => ?_, fun name inside => ?_,
    fun resumeNext inside => ?_, ?_⟩
  · exact sound.block body (R.inner fits member inside)
  · exact R.declared fits member inside
  · exact R.modes fits member inside
  · exact stmt.kind.obeys_any

theorem evalExpr (sound : R.Sound chain ev) (e : Expr) :
    (R.expr chain).holds Policy.any.value fun i => (ev i).evalExpr e := by
  have parts : ∀ part ∈ e.parts, (R.expr chain).Evaluates ev part := fun part _ => sound.expr part
  exact (R.expr chain).holds_evalExpr sound.invoke parts (fun _ _ => id)
    fun _ _ _ _ bound _ => sound.expr bound

theorem execStmt (sound : R.Sound chain ev) {stmt : Stmt} {block : Block} (member : stmt ∈ block)
    (fits : R.fits chain block) :
    (R.stmt chain).holds (fun _ => True) fun i => (ev i).execStmt stmt :=
  BlockJudgement.holds_execStmt sound.serves (sound.admits fits stmt member)

theorem execBlock (sound : R.Sound chain ev) {block : Block} (fits : R.fits chain block) :
    (R.stmt chain).holds (fun _ => True) fun i => (ev i).execBlock block :=
  BlockJudgement.holds_execBlock sound.serves (sound.admits fits)

theorem storeElement (sound : R.Sound chain ev) (container : Value) (index : List Value)
    (value : Value) (name : Name) :
    (R.expr chain).holds (fun _ => True) fun i =>
      (ev i).storeElement container index value name :=
  (R.expr chain).holds_storeElement sound.invoke (fun _ _ => trivial) (Policy.any_value _)
    (fun _ _ => Policy.any_value _) (Policy.any_value _)
    fun _ _ _ _ _ _ => sound.store _ _ _ (fun _ _ => Policy.any_value _) (Policy.any_value _)

theorem invokeProcedure {decl : Procedure} (sound : R.Sound (decl :: chain) ev)
    (this : Option InstanceRef) (values : List Value) :
    (R.expr chain).holds Policy.any.invocation fun i =>
      (ev i).invokeProcedure decl this values := by
  intro m before
  have pre : (R.stmts chain).Pre m := (R.stmts chain).pre_iff.mp before
  have body : (R.stmt (decl :: chain)).holds Policy.any.invocation fun i =>
      (ev i).runBody decl values :=
    StmtJudgement.holds_runBody (R.params chain decl) (R.result chain decl) (R.scalars chain decl)
      (fun _ _ => Policy.any_value _) (sound.block _ (R.body chain decl))
  by_cases full : m.callLimit ≤ m.callDepth
  · refine ⟨?_, ?_, ?_⟩ <;> simp only [Interpreter.exec_invokeProcedure, if_pos full]
    · exact (R.stmts chain).exprs.refl before
    · exact nofun
  · have agree := body (Interpreter.enter decl this m) (R.enter pre (Nat.lt_of_not_le full))
    refine ⟨?_, ?_, ?_⟩ <;> simp only [Interpreter.exec_invokeProcedure, if_neg full]
    · rw [agree.same]
    · exact R.leave pre agree.step
    · exact agree.result

end Sound

/-- The interpreter with any bound is sound. -/
theorem sound_within (n : Nat) (chain : List Procedure) :
    R.Sound chain fun _ => Interpreter.within n := by
  induction n generalizing chain with
  | zero =>
    refine ⟨fun _ m pre => ?_, fun _ _ m pre => ?_, fun _ _ _ _ _ _ m pre => ?_,
      fun _ _ _ _ _ _ _ m pre => ?_, 0, fun _ => rfl⟩
    · exact ⟨rfl, Discipline.refl _ pre, nofun⟩
    · exact ⟨rfl, Discipline.refl _ pre, nofun⟩
    · exact ⟨rfl, Discipline.refl _ pre, nofun⟩
    · exact ⟨rfl, Discipline.refl _ pre, nofun⟩
  | succ n ih =>
    exact ⟨(ih chain).evalExpr, fun _ => (ih chain).execBlock,
      fun decl this values _ _ _ => (ih (decl :: chain)).invokeProcedure this values,
      fun index value name _ _ container _ => (ih chain).storeElement container index value name,
      n + 1, fun _ => rfl⟩

end Regime
end ServerScript
