import ServerScript.Proofs.Names
import ServerScript.Proofs.Reachability
import ServerScript.Host.Basic

/-! Frame discipline. Whatever its end, a computation leaves the number of frames, the call depth,
the current instance and procedure, the `With` stack and all running property reads as it found
them, and an expression or a call leaves the error mode too. As many frames exist as calls are
running, and never more than the limit allows. -/
namespace ServerScript

structure Machine.Restores (m m' : Machine) : Prop where
  depth : m'.scopes.depth = m.scopes.depth
  callDepth : m'.callDepth = m.callDepth
  me : m'.scopes.me = m.scopes.me
  procedure : m'.procedure = m.procedure
  withStack : m'.withStack = m.withStack
  running : ∀ cell, m'.heap.running cell = m.heap.running cell
  callLimit : m'.callLimit = m.callLimit

structure Machine.RestoresMode (m m' : Machine) : Prop extends m.Restores m' where
  resumeNext : m'.resumeNext = m.resumeNext

/-- One frame for each call that is running, and no more of them than the limit allows. -/
structure Machine.WellFramed (m : Machine) : Prop where
  depth : m.scopes.depth = m.callDepth
  bounded : m.callDepth ≤ m.callLimit

namespace Machine

variable {m m' m'' : Machine}

theorem Restores.refl (m : Machine) : m.Restores m := ⟨rfl, rfl, rfl, rfl, rfl, fun _ => rfl, rfl⟩

theorem Restores.trans (first : m.Restores m') (second : m'.Restores m'') : m.Restores m'' :=
  ⟨second.depth.trans first.depth, second.callDepth.trans first.callDepth,
    second.me.trans first.me, second.procedure.trans first.procedure,
    second.withStack.trans first.withStack,
    fun cell => (second.running cell).trans (first.running cell),
    second.callLimit.trans first.callLimit⟩

theorem Restores.wellFramed (restores : m.Restores m') (framed : m.WellFramed) : m'.WellFramed := by
  refine ⟨?_, ?_⟩
  · rw [restores.depth, restores.callDepth, framed.depth]
  · rw [restores.callDepth, restores.callLimit]
    exact framed.bounded

theorem RestoresMode.refl (m : Machine) : m.RestoresMode m := ⟨.refl m, rfl⟩

theorem RestoresMode.trans (first : m.RestoresMode m') (second : m'.RestoresMode m'') :
    m.RestoresMode m'' :=
  ⟨first.toRestores.trans second.toRestores, second.resumeNext.trans first.resumeNext⟩

theorem Moves.restoresMode (moved : m.Moves .any m') : m.RestoresMode m' := by
  have restores : m.Restores m' :=
    ⟨congrArg Scopes.depth moved.scopes, moved.callDepth, congrArg Scopes.me moved.scopes,
      moved.procedure, moved.withStack, moved.heap.quiet, moved.callLimit⟩
  exact ⟨restores, moved.resumeNext⟩

theorem restores_scopes {scopes : Scopes} (depth : scopes.depth = m.scopes.depth)
    (me : scopes.me = m.scopes.me) : m.Restores { m with scopes } :=
  ⟨depth, rfl, me, rfl, rfl, fun _ => rfl, rfl⟩

theorem restores_define {name : Name} {v : Value} {scopes : Scopes}
    (done : m.scopes.define name v = .ok scopes) : m.Restores { m with scopes } := by
  obtain ⟨scope, rest, first, rfl⟩ | ⟨-, rfl⟩ := Scopes.define_cases done
  · exact restores_scopes (by simp [Scopes.depth, first]) rfl
  · exact restores_scopes rfl rfl

theorem restores_setConstant {name : Name} {v : Value} {scopes : Scopes}
    (done : m.scopes.setConstant name v = .ok scopes) : m.Restores { m with scopes } := by
  obtain ⟨scope, rest, first, rfl⟩ | ⟨-, rfl⟩ := Scopes.setConstant_cases done
  · exact restores_scopes (by simp [Scopes.depth, first]) rfl
  · exact restores_scopes rfl rfl

theorem restoresMode_assign {name : Name} {v : Value} {scopes : Scopes} {heap : Heap} {r : Assigned}
    (done : m.scopes.assign m.heap name v = .ok (scopes, heap, r)) :
    m.RestoresMode { m with scopes, heap } := by
  obtain ⟨rfl, rfl, -⟩ | ⟨-, rfl, rfl, -⟩ | ⟨i, rfl, rfl, -⟩ | ⟨i, -, rfl, rfl, -⟩ :=
    Scopes.assign_cases done
  · exact ⟨restores_scopes (Scopes.length_setInFrames _) rfl, rfl⟩
  · exact ⟨restores_scopes rfl rfl, rfl⟩
  · have moved : m.heap.Advances .any (m.heap.setField i.cell name v) :=
      Heap.advances_setField _ _ _ (Policy.any_value v)
    exact (Moves.ofHeap m moved).restoresMode
  · exact .refl m

theorem restores_leaveGetter {cell : Nat} {name : Name} (starts : m.startsGetter cell name = true)
    (inner : ∀ other, m'.heap.running other = (m.enterGetter cell name).heap.running other)
    (other : Nat) :
    (m'.leaveGetter cell name).heap.running other = m.heap.running other := by
  have left : (m'.leaveGetter cell name).heap.running other =
      if cell = other then (m'.heap.running other).erase name else m'.heap.running other := by
    simp only [leaveGetter, Interpreter.leaveGetter, Heap.running, Heap.instance?,
      Heap.modifyInstance, Array.getElem?_modify]
    split
    · cases m'.heap.instances[other]? <;> simp
    · rfl
  have entered : (m.enterGetter cell name).heap.running other =
      if cell = other ∧ (m.heap.instance? cell).isSome then name :: m.heap.running other
      else m.heap.running other := by
    rw [startsGetter, Interpreter.enterGetter] at starts
    simp only [enterGetter, Interpreter.enterGetter]
    cases known : m.heap.instance? cell with
    | none => simp
    | some content =>
      simp only [known] at starts ⊢
      split at starts
      · cases starts
      · rename_i fresh
        rw [if_neg fresh]
        simp only [Heap.running, Heap.instance?, Heap.modifyInstance, Array.getElem?_modify]
          at known ⊢
        by_cases same : cell = other
        · subst same
          simp [known]
        · simp [same]
  rw [left, inner, entered]
  by_cases same : cell = other
  · subst same
    cases known : m.heap.instance? cell with
    | none => simp [Heap.running, known]
    | some content => simp
  · simp [same]

theorem restoresMode_leave {decl : Procedure} {this : Option InstanceRef}
    (body : (Interpreter.enter decl this m).Restores m') :
    m.RestoresMode (Interpreter.leave (.ofMachine m) m') := by
  refine ⟨⟨?_, ?_, rfl, rfl, rfl, body.running, body.callLimit⟩, rfl⟩
  · have depth : m'.scopes.frames.length = m.scopes.frames.length + 1 := body.depth
    simp [Interpreter.leave, Scopes.depth, Scopes.pop, depth]
  · have depth : m'.callDepth = m.callDepth + 1 := body.callDepth
    simp [Interpreter.leave, depth]

theorem WellFramed.enter {decl : Procedure} {this : Option InstanceRef} (framed : m.WellFramed)
    (room : m.callDepth < m.callLimit) : (Interpreter.enter decl this m).WellFramed :=
  ⟨congrArg (· + 1) framed.depth, room⟩

theorem AtRest.wellFramed (rest : m.AtRest) : m.WellFramed := by
  refine ⟨?_, ?_⟩
  · rw [Scopes.depth, rest.frames, rest.callDepth]
    rfl
  · rw [rest.callDepth]
    exact Nat.zero_le _

theorem Restores.atRest (restores : m.Restores m') (rest : m.AtRest) : m'.AtRest := by
  refine ⟨List.length_eq_zero_iff.mp ?_, restores.callDepth.trans rest.callDepth,
    restores.me.trans rest.me, restores.procedure.trans rest.procedure,
    restores.withStack.trans rest.withStack,
    fun cell => (restores.running cell).trans (rest.running cell)⟩
  have depth := restores.depth
  rw [Scopes.depth, Scopes.depth, rest.frames] at depth
  exact depth

end Machine

/-- Expressions restore the state, on demand from states that are well framed. -/
def frameExprs (framed : Prop) : ExprDiscipline where
  Pre m := framed → m.WellFramed
  Step m m' := m.RestoresMode m'
  refl _ := .refl _
  trans := .trans
  keeps pre step demand := step.wellFramed (pre demand)
  moves _ moved := moved.restoresMode
  assign _ done := Machine.restoresMode_assign done
  enterGetter pre _ demand := ⟨(pre demand).depth, (pre demand).bounded⟩
  leaveGetter _ starts inner :=
    ⟨⟨inner.depth, inner.callDepth, inner.me, inner.procedure, inner.withStack,
      Machine.restores_leaveGetter starts inner.running, inner.callLimit⟩, inner.resumeNext⟩

def frameStmts (framed : Prop) : StmtDiscipline where
  Pre m := framed → m.WellFramed
  Step m m' := m.Restores m'
  refl _ := .refl _
  trans := .trans
  keeps pre step demand := step.wellFramed (pre demand)
  moves _ moved := moved.restoresMode.toRestores
  exprs := frameExprs framed
  declares _ := True
  modes _ := True
  pre_iff := .rfl
  lift _ step := step.toRestores
  define _ _ done := Machine.restores_define done
  constant _ done := Machine.restores_setConstant done
  extend _ _ done := Machine.restores_define done
  errorMode _ _ := ⟨rfl, rfl, rfl, rfl, rfl, fun _ => rfl, rfl⟩
  compareMode _ := Machine.restores_scopes rfl rfl
  enterWith pre demand := ⟨(pre demand).depth, (pre demand).bounded⟩
  leaveWith _ inner :=
    ⟨inner.depth, inner.callDepth, inner.me, inner.procedure,
      congrArg (List.drop 1) inner.withStack,
      inner.running, inner.callLimit⟩

def frameRegime (framed : Prop) : Regime where
  stmts _ := frameStmts framed
  fits _ _ := True
  rest _ := trivial
  inner _ _ _ := trivial
  declared _ _ _ := trivial
  modes _ _ _ := trivial
  body _ _ := trivial
  params _ _ _ _ := trivial
  result _ _ _ := trivial
  scalars _ _ _ _ := trivial
  enter pre room demand := (pre demand).enter room
  leave _ body := Machine.restoresMode_leave body

namespace Interpreter

variable (n : Nat) (m : Machine)

theorem restoresMode_expr (e : Expr) : m.RestoresMode (((within n).expr e).exec m).2 := by
  have sound := (frameRegime False).sound_within n []
  exact (sound.expr e m False.elim).step

theorem restoresMode_callProcedure (decl : Procedure) (this : Option InstanceRef)
    (args : Arguments) : m.RestoresMode ((callProcedure (within n) decl this args).exec m).2 := by
  have sound := (frameRegime False).sound_within n []
  have call : ((frameRegime False).expr []).holds Policy.any.value fun _ =>
      callProcedure (within n) decl this args :=
    ((frameRegime False).expr []).holds_callProcedure sound.invoke trivial
      (fun _ _ => trivial) fun _ _ => Policy.any_value _
  exact (call m False.elim).step

theorem restores_block (block : Block) : m.Restores (((within n).block block).exec m).2 := by
  have sound := (frameRegime False).sound_within n []
  exact (sound.block block trivial m False.elim).step

theorem restores_execStmt (stmt : Stmt) : m.Restores (((within n).execStmt stmt).exec m).2 := by
  have sound := (frameRegime False).sound_within n []
  exact (sound.execStmt (List.mem_singleton_self stmt) trivial m False.elim).step

theorem restores_hoist (block : Block) : m.Restores ((hoist block).exec m).2 := by
  have hoisted := StmtJudgement.holds_hoist
    (S := ((frameRegime False).stmt []).toStmtJudgement) block
    (fun _ _ _ _ => trivial) fun stmt _ => stmt.kind.obeys_any
  exact (hoisted m False.elim).step

end Interpreter

theorem Host.atRest_machine (host : Host) (exchange : Exchange) :
    (host.machine exchange).AtRest := ⟨rfl, rfl, rfl, rfl, rfl, fun _ => rfl⟩

theorem Script.atRest_run (program : Block) {m : Machine} (rest : m.AtRest) :
    ((Script.run program).exec m).2.AtRest := by
  have hoisted := (Interpreter.restores_hoist m program).atRest rest
  rw [Script.run, Run.exec_bind]
  split
  · exact (Interpreter.restores_block Interpreter.bound _ program).atRest hoisted
  · exact hoisted

theorem Stage.Reachable.wellFramed {s : Stage} (reachable : s.Reachable) : s.state.WellFramed := by
  have start : ∀ (m : Machine) (rest : m.AtRest), True → m.WellFramed :=
    fun m rest _ => rest.wellFramed
  exact ((frameRegime True).reachable reachable start fun _ => trivial).1 trivial

/-- Frame discipline: whatever is run from whatever state, with any end, restores the state, and
at every stage of a run as many frames exist as calls are running, within the limit. -/
theorem frame_discipline :
    (∀ (n : Nat) (m : Machine),
      (∀ stmt, m.Restores (((Interpreter.within n).execStmt stmt).exec m).2) ∧
      (∀ block, m.Restores (((Interpreter.within n).block block).exec m).2) ∧
      (∀ e, m.RestoresMode (((Interpreter.within n).expr e).exec m).2) ∧
      ∀ decl this args, m.RestoresMode
        (((Interpreter.within n).callProcedure decl this args).exec m).2) ∧
    ∀ s : Stage, s.Reachable →
      s.state.scopes.depth = s.state.callDepth ∧ s.state.callDepth ≤ s.state.callLimit := by
  refine ⟨fun n m => ⟨?_, ?_, ?_, ?_⟩, fun s reachable => ?_⟩
  · exact Interpreter.restores_execStmt n m
  · exact Interpreter.restores_block n m
  · exact Interpreter.restoresMode_expr n m
  · exact Interpreter.restoresMode_callProcedure n m
  · exact ⟨reachable.wellFramed.depth, reachable.wellFramed.bounded⟩

def Procedure.idle : Procedure := ⟨⟨"idle"⟩, .function, .everyone, false, [], []⟩

def Machine.inIdle : Machine :=
  { Interpreter.enter .idle none {} with
    scopes := { frames := [{ locals := [(⟨"idle"⟩, .empty)] }] } }

theorem frame_discipline_inside_call :
    Stage.Reachable ⟨0, [.idle], .block [], .inIdle⟩ ∧
      Machine.inIdle.scopes.depth = Machine.inIdle.callDepth ∧
      Machine.inIdle.callDepth ≤ Machine.inIdle.callLimit := by
  have rest : ({} : Machine).AtRest := ⟨rfl, rfl, rfl, rfl, rfl, fun _ => rfl⟩
  have opened : (Interpreter.openFrame .idle []).exec (Interpreter.enter .idle none {}) =
      (.ok ⟨⟩, .inIdle) := rfl
  have reachable : Stage.Reachable ⟨0, [.idle], .block [], .inIdle⟩ :=
    .step (.start rest) (.issue ((Interpreter.within 0).issues_body (by decide) opened))
  exact ⟨reachable, frame_discipline.2 _ reachable⟩

end ServerScript
