import ServerScript.Proofs.Approximation

/-! Tasks that end. A task settles if it ends in the same way under every bound on its steps that
is large enough. A task without loops that does not settle issues another one that does not settle,
since it is made up of finitely many tasks, run one after the other. -/
namespace ServerScript

structure Point where
  task : Task
  state : Machine

namespace Point

def run (x : Point) (n : Nat) : Except Stop x.task.Result × Machine :=
  ((Interpreter.within n).run x.task).exec x.state

def Settles (x : Point) : Prop :=
  ∃ n e, e.1 ≠ .error .exhausted ∧ ∀ k, n ≤ k → x.run k = e

/-- A task runs another one, under every bound that is large enough. -/
def Issues (x y : Point) : Prop :=
  ∃ n, ∀ k, n ≤ k → (Interpreter.within k).Issues x.task x.state y.task y.state

structure LoopFree (accepts : ClassDecl → Bool) (x : Point) : Prop where
  task : x.task.LoopFree accepts
  carries : x.state.Carries (.loopFree accepts)

variable {accepts : ClassDecl → Bool} {x y : Point}

theorem LoopFree.issues (free : x.LoopFree accepts) (issues : x.Issues y) : y.LoopFree accepts := by
  obtain ⟨n, issues⟩ := issues
  obtain ⟨task, carries⟩ := (issues n (Nat.le_refl n)).loopFree free.task free.carries
  exact ⟨task, carries⟩

theorem LoopFree.level (free : x.LoopFree accepts) :
    x.state.Level (.loopFree accepts) x.state.callLimit x.state.callDepth :=
  ⟨free.carries, rfl, rfl⟩

theorem LoopFree.settles (free : x.LoopFree accepts) {n : Nat}
    (ends : (x.run n).1 ≠ .error .exhausted) : x.Settles := by
  refine ⟨n, x.run n, ends, fun k le => ?_⟩
  have approximates := Interpreter.approximates_within le free.task free.level
  exact approximates.less.resolve_left fun less => ends less.2

theorem LoopFree.exhausted (free : x.LoopFree accepts) (unsettled : ¬x.Settles) (n : Nat) :
    (x.run n).1 = .error .exhausted := by
  by_contra ends
  exact unsettled (free.settles ends)

theorem Issues.exhausted {n : Nat} (issues : x.Issues y) (free : x.LoopFree accepts)
    (less : (y.run n).1 = .error .exhausted) : (x.run (n + 1)).1 = .error .exhausted := by
  obtain ⟨k, issues⟩ := issues
  exact (issues (max n k) (Nat.le_max_right n k)).exhausted (Nat.le_max_left n k) free.task
    free.carries less

end Point

/-- A run within a bound in which one task may be marked: it is answered by a fault. -/
structure Trial where
  bound : Nat
  mark : Option Point

namespace Trial

noncomputable def interpreter : Trial → Interpreter
  | ⟨n, none⟩ => .within n
  | ⟨n, some x⟩ => (Interpreter.within n).refusing x.task x.state (.fault .capacityOverflow)

def Fair (i : Trial) : Prop := ∀ x, i.mark = some x → ¬x.Settles

theorem fair_none (n : Nat) : (⟨n, none⟩ : Trial).Fair := by
  intro x same
  cases same

theorem fair_some {x : Point} (unsettled : ¬x.Settles) (n : Nat) : (⟨n, some x⟩ : Trial).Fair := by
  intro y same
  cases same
  exact unsettled

end Trial

/-- The trials of a computation from a state either all end alike, the bound being large enough,
or the computation runs a task that does not settle and ends with its answer. -/
inductive Progress (next : Point → Prop) (P : Machine → Prop) (Q : α → Prop)
    (e : Trial → Except Stop α × Machine) : Prop where
  | done (r : Except Stop α) (m : Machine) (n : Nat) (ends : r ≠ .error .exhausted)
    (result : ∀ a, r = .ok a → Q a) (state : P m)
    (same : ∀ i : Trial, n ≤ i.bound → i.Fair → e i = (r, m))
  | stuck (x : Point) (n : Nat) (issued : next x) (unsettled : ¬x.Settles)
    (stops : ∀ k, n ≤ k → (e ⟨k, some x⟩).1 = .error (.fault .capacityOverflow))

namespace Progress

variable {next : Point → Prop} {P P' : Machine → Prop} {Q : α → Prop} {R : β → Prop} {m : Machine}

theorem bind {x : Trial → Run α} {f : Trial → α → Run β}
    (first : Progress next P Q fun i => (x i).exec m)
    (more : ∀ a m', Q a → P m' → Progress next P R fun i => (f i a).exec m') :
    Progress next P R fun i => (x i >>= f i).exec m := by
  cases first with
  | stuck y n issued unsettled stops =>
    refine .stuck y n issued unsettled fun k le => ?_
    rw [Run.exec_bind, stops k le]
  | done r m' n ends result state same =>
    cases r with
    | error s =>
      refine .done (.error s) m' n (fun equal => ends ?_) nofun state fun i le fair => ?_
      · cases equal
        rfl
      · exact Run.exec_bind_error (same i le fair)
    | ok a =>
      have tail : ∀ i : Trial, n ≤ i.bound → i.Fair →
          (x i >>= f i).exec m = (f i a).exec m' := fun i le fair =>
        Run.exec_bind_ok (same i le fair)
      cases more a m' (result a rfl) state with
      | stuck y n' issued unsettled stops =>
        refine .stuck y (max n n') issued unsettled fun k le => ?_
        rw [tail _ (Nat.le_trans (Nat.le_max_left n n') le) (Trial.fair_some unsettled k)]
        exact stops k (Nat.le_trans (Nat.le_max_right n n') le)
      | done r' m'' n' ends' result' state' same' =>
        refine .done r' m'' (max n n') ends' result' state' fun i le fair => ?_
        rw [tail i (Nat.le_trans (Nat.le_max_left n n') le) fair]
        exact same' i (Nat.le_trans (Nat.le_max_right n n') le) fair

theorem pass {Q' : β → Prop} {e : Trial → Except Stop α × Machine}
    {change : Except Stop α × Machine → Except Stop β × Machine}
    (progress : Progress next P Q e) (passes : Passes P P' Q Q' change) :
    Progress next P' Q' fun i => change (e i) := by
  cases progress with
  | stuck x n issued unsettled stops =>
    refine .stuck x n issued unsettled fun k le => ?_
    have ends : e ⟨k, some x⟩ = (.error (.fault .capacityOverflow), (e ⟨k, some x⟩).2) :=
      Prod.ext (stops k le) rfl
    rw [ends]
    exact passes.stops _ _ nofun
  | done r m n ends result state same =>
    refine .done (change (r, m)).1 (change (r, m)).2 n (fun less => ends (passes.steady r m less))
      (passes.result r m result) (passes.state r m state) fun i le fair => ?_
    rw [same i le fair]

end Progress

def Criterion.progress (accepts : ClassDecl → Bool) (next : Point → Prop) :
    Criterion Trial (.loopFree accepts) where
  meets := Progress next
  same {_ _ _ r m} ends state :=
    .done r m 0 (fun same => by
      rw [same] at ends
      exact ends rfl) (fun _ => ends.result) state fun _ _ _ => rfl
  bind := .bind
  pass := .pass

namespace Point

variable {accepts : ClassDecl → Bool} {x y : Point}

structure Follows (accepts : ClassDecl → Bool) (x y : Point) : Prop where
  free : y.LoopFree accepts
  next : x.task.Next (.loopFree accepts) x.state.callLimit x.state.callDepth y.task
  callLimit : y.state.callLimit = x.state.callLimit
  callDepth : y.state.callDepth = x.task.innerDepth x.state.callDepth

theorem LoopFree.progress {next : Point → Prop} {limit depth : Nat} (free : x.LoopFree accepts)
    (level : x.state.Level (.loopFree accepts) limit depth) (issued : next x) :
    Progress next (Machine.Level (.loopFree accepts) limit depth)
      (x.task.Gives (.loopFree accepts)) fun i => (i.interpreter.run x.task).exec x.state := by
  by_cases settles : x.Settles
  · obtain ⟨n, ⟨r, m⟩, ends, same⟩ := settles
    have safe := Interpreter.approximates_within (Nat.le_refl n) free.task level
    have final : ((Interpreter.within n).run x.task).exec x.state = (r, m) := same n (Nat.le_refl n)
    rw [final] at safe
    refine .done r m n ends safe.result safe.state fun i le fair => ?_
    obtain ⟨k, _ | y⟩ := i
    · exact same k le
    · refine (Interpreter.exec_refusing ?_).trans (same k le)
      rintro ⟨task, state⟩
      obtain rfl : y = x := by
        cases x
        cases y
        congr
        exact state.symm
      exact fair y rfl ⟨n, (r, m), ends, same⟩
  · refine .stuck x 0 issued settles fun k _ => ?_
    exact congrArg Prod.fst (Interpreter.exec_refusing_self _ x.task x.state _)

theorem LoopFree.progress_rules (free : x.LoopFree accepts) :
    Progress (Follows accepts x)
      (Machine.Level (.loopFree accepts) x.state.callLimit x.state.callDepth)
      (x.task.Gives (.loopFree accepts)) fun i => (i.interpreter.rules x.task).exec x.state := by
  have issued : ∀ task', x.task.Next (.loopFree accepts) x.state.callLimit x.state.callDepth task' →
      task'.LoopFree accepts → (Criterion.progress accepts (Follows accepts x)).Holds
        x.state.callLimit (x.task.innerDepth x.state.callDepth) (task'.Gives (.loopFree accepts))
        fun i => i.interpreter.run task' := by
    intro task' next free' m level
    have inner : (⟨task', m⟩ : Point).LoopFree accepts := ⟨free', level.carries⟩
    exact inner.progress level ⟨inner, next, level.callLimit, level.callDepth⟩
  exact Criterion.holds_rules free.task issued x.state free.level

/-- A task that does not settle issues a task that does not settle. -/
theorem LoopFree.exists_issues (free : x.LoopFree accepts) (unsettled : ¬x.Settles) :
    ∃ y, x.Issues y ∧ x.Follows accepts y ∧ ¬y.Settles := by
  cases free.progress_rules with
  | done r m n ends result state same =>
    refine absurd ⟨n + 1, (r, m), ends, fun k le => ?_⟩ unsettled
    obtain ⟨k, rfl⟩ := Nat.exists_eq_add_of_le' le
    have final := same ⟨k + n, none⟩ (Nat.le_add_left n k) (Trial.fair_none _)
    rw [Point.run, ← Nat.add_assoc, Interpreter.run_within_succ]
    exact final
  | stuck y n follows unsettled' stops =>
    refine ⟨y, ⟨n, fun k le => ⟨.fault .capacityOverflow, fun same => ?_⟩⟩, follows, unsettled'⟩
    have plain : (((Interpreter.within k).rules x.task).exec x.state).1 = .error .exhausted := by
      rw [← Interpreter.run_within_succ]
      exact free.exhausted unsettled (k + 1)
    have refused := stops k le
    dsimp only [Trial.interpreter] at refused
    rw [same, plain] at refused
    cases refused

end Point
end ServerScript
