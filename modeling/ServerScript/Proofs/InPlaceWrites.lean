import ServerScript.Proofs.Names
import ServerScript.Proofs.Refusals
import ServerScript.Proofs.SecureSteps

/-! Writes in place. Three operations change an array that exists: the store of an element, `Erase`
and `ReDim Preserve`. A stage of a run writes an array if it starts one of them on it. An array that
no stage has written up to some time, counted in looks at the clock, has had the same content until
then. A state that has lost the content is traced back to a stage with the interpreters that answer
one task with a stop: a task that is met stops the run, and one that is missed leaves it alone. -/
namespace ServerScript

open Relation

def Policy.calm : Policy := { Policy.any with inPlace := False }

def clockExprs : ExprDiscipline where
  Pre _ := True
  Step m m' := m.control.elapsed ≤ m'.control.elapsed
  refl _ := Nat.le_refl _
  trans := Nat.le_trans
  keeps _ _ := trivial
  moves _ moved := moved.time
  assign _ _ := Nat.le_refl _
  enterGetter _ _ := trivial
  leaveGetter _ _ inner := inner

def clockStmts : StmtDiscipline where
  toDiscipline := clockExprs.toDiscipline
  exprs := clockExprs
  declares _ := True
  modes _ := True
  pre_iff := .rfl
  lift _ := id
  define _ _ _ := Nat.le_refl _
  constant _ _ := Nat.le_refl _
  extend _ _ _ := Nat.le_refl _
  errorMode _ _ := Nat.le_refl _
  compareMode _ := Nat.le_refl _
  enterWith _ := trivial
  leaveWith _ inner := inner

theorem Interpreter.elapsed_run (n : Nat) (task : Task) (m : Machine) :
    m.control.elapsed ≤ (((within n).run task).exec m).2.control.elapsed := by
  let R := Regime.uniform clockStmts (fun _ => trivial) (fun _ => trivial) (fun _ => trivial) id
  exact R.step_run n [] trivial (by cases task <;> trivial)

/-- The content that an array is to have up to some time. -/
structure Snapshot where
  cell : Nat
  content : ArrayCell
  horizon : Nat

namespace Machine

variable {m m' : Machine} {snapshot : Snapshot}

/-- A state in which the array has the content, if the time is not over. -/
def Intact (m : Machine) (snapshot : Snapshot) : Prop :=
  m.control.elapsed ≤ snapshot.horizon → m.heap.array? snapshot.cell = some snapshot.content

structure Alike (m m' : Machine) : Prop where
  control : m'.control = m.control
  arrays : m'.heap.arrays = m.heap.arrays

theorem Intact.later (intact : m.Intact snapshot) (time : m.control.elapsed ≤ m'.control.elapsed)
    (kept : m.heap.array? snapshot.cell = some snapshot.content →
      m'.heap.array? snapshot.cell = some snapshot.content) : m'.Intact snapshot := by
  intro inTime
  exact kept (intact (Nat.le_trans time inTime))

theorem Alike.time (alike : m.Alike m') : m.control.elapsed ≤ m'.control.elapsed := by
  rw [alike.control]

theorem Alike.intact (alike : m.Alike m') (intact : m.Intact snapshot) : m'.Intact snapshot := by
  refine intact.later alike.time fun kept => ?_
  rw [Heap.array?, alike.arrays]
  exact kept

end Machine

/-- A run that leaves the snapshot intact and meets tasks only at states in which it is. -/
structure Quiet (snapshot : Snapshot) (Q : α → Prop) (x : Option Refusal → Run α) (m : Machine) :
    Prop where
  state : ((x none).exec m).2.Intact snapshot
  time : m.control.elapsed ≤ ((x none).exec m).2.control.elapsed
  result : ∀ b, ((x none).exec m).1 = .ok b → Q b
  told : ∀ task state, state.Intact snapshot ∧ Meets x m task state ∨ Misses x m task state

theorem Quiet.of_exec {snapshot : Snapshot} {Q : α → Prop} {x : Option Refusal → Run α}
    {m : Machine} {e : Except Stop α × Machine} (ends : (x none).exec m = e)
    (state : e.2.Intact snapshot) (time : m.control.elapsed ≤ e.2.control.elapsed)
    (result : ∀ b, e.1 = .ok b → Q b)
    (told : ∀ task state, state.Intact snapshot ∧ Meets x m task state ∨ Misses x m task state) :
    Quiet snapshot Q x m := by
  subst ends
  exact ⟨state, time, result, told⟩

def Spoils (n : Nat) (snapshot : Snapshot) (x : Option Refusal → Run α) (m : Machine) : Prop :=
  ∃ task state, state.Intact snapshot ∧
    ¬(((Interpreter.within n).run task).exec state).2.Intact snapshot ∧ Meets x m task state

/-- A run that leaves the snapshot intact, or in which some task is to blame. -/
def Watched (n : Nat) (snapshot : Snapshot) (Q : α → Prop) (x : Option Refusal → Run α)
    (m : Machine) : Prop := Quiet snapshot Q x m ∨ Spoils n snapshot x m

theorem Spoils.bind {n : Nat} {snapshot : Snapshot} {x : Option Refusal → Run α}
    {f : Option Refusal → α → Run β} {m : Machine} (spoils : Spoils n snapshot x m) :
    Spoils n snapshot (fun i => x i >>= f i) m := by
  obtain ⟨task, state, intact, spoiled, meets⟩ := spoils
  exact ⟨task, state, intact, spoiled, meets.bind⟩

namespace Watched

variable {n : Nat} {snapshot : Snapshot} {Q : α → Prop} {R : β → Prop} {m : Machine}
  {x : Option Refusal → Run α}

theorem bind {f : Option Refusal → α → Run β} (first : Watched n snapshot Q x m)
    (next : ∀ b m', (x none).exec m = (.ok b, m') → Q b → m'.Intact snapshot →
      m.control.elapsed ≤ m'.control.elapsed → Watched n snapshot R (fun i => f i b) m') :
    Watched n snapshot R (fun i => x i >>= f i) m := by
  rcases first with quiet | spoils
  · cases done : ((x none).exec m).1 with
    | error stop =>
      have ends : (x none).exec m = (.error stop, ((x none).exec m).2) := Prod.ext done rfl
      refine .inl (.of_exec (Run.exec_bind_error ends) quiet.state quiet.time nofun
        fun task state =>
          (quiet.told task state).imp (.imp_right .bind) fun misses => misses.bind_error ends)
    | ok b =>
      have ends : (x none).exec m = (.ok b, ((x none).exec m).2) := Prod.ext done rfl
      have after := next b _ ends (quiet.result b done) quiet.state quiet.time
      rcases after with later | ⟨task, state, intact, spoiled, met⟩
      · refine .inl (.of_exec (Run.exec_bind_ok ends) later.state
          (Nat.le_trans quiet.time later.time) later.result fun task state => ?_)
        rcases quiet.told task state with ⟨intact, meets⟩ | misses
        · exact .inl ⟨intact, meets.bind⟩
        · exact (later.told task state).imp (.imp_right (misses.bind_meets ends)) (misses.bind ends)
      · refine .inr ⟨task, state, intact, spoiled, ?_⟩
        rcases quiet.told task state with ⟨-, meets⟩ | misses
        · exact meets.bind
        · exact misses.bind_meets ends met
  · exact .inr spoils.bind

theorem alone {ends : Except Stop α × Machine} (runs : ∀ i, (x i).exec m = ends)
    (state : ends.2.Intact snapshot) (time : m.control.elapsed ≤ ends.2.control.elapsed)
    (result : ∀ b, ends.1 = .ok b → Q b) : Watched n snapshot Q x m := by
  refine .inl (.of_exec (runs none) state time result fun _ _ => .inr fun _ => ?_)
  rw [runs, runs]

theorem ofAlike {act : Run α} (alike : m.Alike (act.exec m).2) (intact : m.Intact snapshot)
    (result : ∀ b, Q b) : Watched n snapshot Q (fun _ => act) m := by
  have later := alike.intact intact
  exact alone (fun _ => rfl) later alike.time fun b _ => result b

theorem pure {b : α} (intact : m.Intact snapshot) (result : Q b) :
    Watched n snapshot Q (fun _ => Pure.pure b) m := by
  refine alone (fun _ => rfl) intact (Nat.le_refl _) fun c same => ?_
  cases same
  exact result

theorem wrap {y : Option Refusal → Run β} {start : Machine}
    (exit : Except Stop α × Machine → Except Stop β × Machine) (enters : m.Alike start)
    (inner : Watched n snapshot Q x start) (runs : ∀ i, (y i).exec m = exit ((x i).exec start))
    (lets : ∀ stop m', stop.Final → (exit (.error stop, m')).1 = .error stop)
    (leaves : ∀ e : Except Stop α × Machine, e.2.Alike (exit e).2)
    (result : ∀ e b, (∀ b, e.1 = .ok b → Q b) → (exit e).1 = .ok b → R b) :
    Watched n snapshot R y m := by
  refine inner.imp (fun quiet => ?_) ?_
  · have time := Nat.le_trans (Nat.le_trans enters.time quiet.time) (leaves _).time
    exact .of_exec (runs none) ((leaves _).intact quiet.state) time
      (fun b => result _ b quiet.result) fun task state =>
        (quiet.told task state).imp (.imp_right (.between runs lets)) (.between runs)
  · rintro ⟨task, state, intact, spoiled, met⟩
    exact ⟨task, state, intact, spoiled, met.between runs lets⟩

theorem ofTask (task : Task) {Q : task.Result → Prop} (results : ∀ r, Q r)
    (intact : m.Intact snapshot) :
    Watched n snapshot Q (fun i => ((Interpreter.within n).facing i).run task) m := by
  have here := meets_run (Interpreter.within n) task m
  by_cases kept : (((Interpreter.within n).run task).exec m).2.Intact snapshot
  · refine .inl ⟨kept, Interpreter.elapsed_run n task m, fun r _ => results r,
      fun other state => ?_⟩
    by_cases same : other = task ∧ m = state
    · obtain ⟨rfl, rfl⟩ := same
      exact .inl ⟨intact, here⟩
    · exact .inr (misses_run _ same)
  · exact .inr ⟨task, m, intact, kept, here⟩

theorem modifyScopes {change : Scopes → Except EvalError Scopes} (intact : m.Intact snapshot) :
    Watched n snapshot (fun _ => True) (fun _ => Run.modifyScopes change) m := by
  refine ofAlike ?_ intact fun _ => trivial
  rw [Run.modifyScopes, Run.exec_get_bind]
  split <;> exact ⟨rfl, rfl⟩

theorem settle {range : Range} (inner : Watched n snapshot (fun _ => True) x m) :
    Watched n snapshot (fun _ => True) (fun i => Interpreter.settle range (x i)) m := by
  refine wrap (Interpreter.settled range) ⟨rfl, rfl⟩ inner
    (fun i => Interpreter.exec_settle range (x i)) ?_ ?_ fun _ _ _ _ => trivial
  · intro stop m' final
    cases stop with
    | error e => exact absurd rfl (final e)
    | _ => rfl
  · rintro ⟨⟨⟨e⟩ | ⟨f⟩ | _⟩ | b, m'⟩
    · dsimp only [Interpreter.settled]
      split <;> exact ⟨rfl, rfl⟩
    · exact ⟨rfl, rfl⟩
    · exact ⟨rfl, rfl⟩
    · exact ⟨rfl, rfl⟩

end Watched

namespace Interpreter

/-- An `Erase` finds the array under one of its names, when it comes to it. -/
inductive Empties (cell : Nat) (find : Name → Option Value) : List Name → Prop where
  | here {name rest} (finds : find name = some (.array cell)) : Empties cell find (name :: rest)
  | later {name rest c} (known : find name = some (.array c)) (empties : Empties cell find rest) :
    Empties cell find (name :: rest)

/-- A `ReDim Preserve` finds the array under one of its names, when it comes to it. -/
inductive Resizes (ev : Interpreter) (cell : Nat) : List VarDecl → Machine → Prop where
  | here {decl rest m uppers m'}
    (bounds : (dimensions ev (decl.dims.getD [])).exec m = (.ok uppers, m'))
    (finds : m'.scopes.lookup m'.heap decl.name = some (.array cell)) :
    Resizes ev cell (decl :: rest) m
  | later {decl rest m m'} (done : (execRedim ev true [decl]).exec m = (.ok ⟨⟩, m'))
    (resizes : Resizes ev cell rest m') : Resizes ev cell (decl :: rest) m

inductive Alters (ev : Interpreter) (cell : Nat) (m : Machine) : StmtKind → Prop where
  | erase {names} (empties : Empties cell (m.scopes.lookup m.heap) names) :
    Alters ev cell m (.erase names)
  | resize {decls} (resizes : ev.Resizes cell decls m) : Alters ev cell m (.redim true decls)

end Interpreter

/-- A stage writes an array at a time: it puts a value into it, or its first statement empties or
resizes it after a look at the clock. -/
inductive Stage.Writes (cell : Nat) : Stage → Nat → Prop where
  | element {n chain c index value name m a i} (here : m.heap.array? cell = some a)
    (puts : m.heap.setPath c (index.map Value.toWord) value =
      (m.heap.setArray cell (a.put i value), true)) :
    Writes cell ⟨n + 1, chain, .store (.array c) index value name, m⟩ m.control.elapsed
  | statement {n chain stmt rest m m'} (runs : m.control.halt = none)
    (inTime : Run.checkDeadline.exec m = (.ok ⟨⟩, m'))
    (alters : (Interpreter.within n).Alters cell m' (Stmt.kind stmt)) :
    Writes cell ⟨n + 1, chain, .block (stmt :: rest), m⟩ m'.control.elapsed

def Stage.Spares (s : Stage) (cell horizon : Nat) : Prop :=
  ∀ t time, ReflTransGen Stage.Leads s t → time ≤ horizon → ¬t.Writes cell time

namespace Stage.Spares

variable {cell horizon : Nat}

theorem leads {s t : Stage} (spares : s.Spares cell horizon) (leads : s.Leads t) :
    t.Spares cell horizon := by
  intro u time path
  exact spares u time (.head leads path)

end Stage.Spares

namespace Interpreter

variable {n : Nat} {chain : List Procedure} {snapshot : Snapshot} {m : Machine}

end Interpreter

namespace Stage

variable {s t : Stage} {snapshot : Snapshot}

end Stage
end ServerScript
