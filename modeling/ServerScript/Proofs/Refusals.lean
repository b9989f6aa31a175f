import ServerScript.Proofs.Reachability

/-! Runs in which one task is answered with a stop at one state. A task that is met stops the run,
and one that is missed leaves it alone. -/
namespace ServerScript

/-- A task that is answered with a stop at one state. -/
structure Refusal where
  task : Task
  state : Machine
  stop : Stop

namespace Interpreter

noncomputable def facing (ev : Interpreter) : Option Refusal → Interpreter
  | none => ev
  | some refusal => ev.refusing refusal.task refusal.state refusal.stop

theorem run_refusing (ev : Interpreter) (task other : Task) (state : Machine) (stop : Stop) :
    (ev.refusing task state stop).run other =
      (ev.run other).stopAt (fun m => task = other ∧ m = state) stop := by
  cases other <;> rfl

theorem fuel_facing (ev : Interpreter) (i : Option Refusal) : (ev.facing i).fuel = ev.fuel := by
  cases i <;> rfl

end Interpreter

def Interpreter.settled (range : Range) :
    Except Stop α × Machine → Except Stop (Option α) × Machine
  | (.ok b, m) => (.ok (some b), m)
  | (.error (.error e), m) =>
    if e.isFatal || !m.resumeNext then (.error (.error e), m.reportError range)
    else (.ok none, m.resumeError e)
  | (.error s, m) => (.error s, m)

section

variable {x : Option Refusal → Run α} {f : Option Refusal → α → Run β} {m : Machine} {task : Task}
  {state : Machine}

/-- A run that meets a task at a state ends with the stop that refuses it. -/
def Meets (x : Option Refusal → Run α) (m : Machine) (task : Task) (state : Machine) : Prop :=
  ∀ stop, stop.Final → ((x (some ⟨task, state, stop⟩)).exec m).1 = .error stop

/-- A run that misses a task at a state is the same if it is refused. -/
def Misses (x : Option Refusal → Run α) (m : Machine) (task : Task) (state : Machine) : Prop :=
  ∀ stop, (x (some ⟨task, state, stop⟩)).exec m = (x none).exec m

theorem Meets.bind (meets : Meets x m task state) :
    Meets (fun i => x i >>= f i) m task state := by
  intro stop final
  rw [Run.exec_bind_error (Prod.ext (meets stop final) rfl)]

theorem Misses.exec_bind {a : α} {m' : Machine} (misses : Misses x m task state)
    (done : (x none).exec m = (.ok a, m')) (stop : Stop) :
    (x (some ⟨task, state, stop⟩) >>= f (some ⟨task, state, stop⟩)).exec m =
      (f (some ⟨task, state, stop⟩) a).exec m' :=
  Run.exec_bind_ok ((misses stop).trans done)

theorem Misses.bind_error {stop : Stop} {m' : Machine} (misses : Misses x m task state)
    (ends : (x none).exec m = (.error stop, m')) :
    Misses (fun i => x i >>= f i) m task state := by
  intro stop'
  rw [Run.exec_bind_error ends, Run.exec_bind_error ((misses stop').trans ends)]

theorem Misses.bind_meets {a : α} {m' : Machine} (misses : Misses x m task state)
    (done : (x none).exec m = (.ok a, m')) (meets : Meets (fun i => f i a) m' task state) :
    Meets (fun i => x i >>= f i) m task state := by
  intro stop final
  rw [misses.exec_bind done]
  exact meets stop final

theorem Misses.bind {a : α} {m' : Machine} (misses : Misses x m task state)
    (done : (x none).exec m = (.ok a, m')) (others : Misses (fun i => f i a) m' task state) :
    Misses (fun i => x i >>= f i) m task state := by
  intro stop
  rw [misses.exec_bind done, Run.exec_bind_ok done]
  exact others stop

section

variable {y : Option Refusal → Run β} {start : Machine}
  {exit : Except Stop α × Machine → Except Stop β × Machine}

theorem Meets.between (runs : ∀ i, (y i).exec m = exit ((x i).exec start))
    (lets : ∀ stop m', stop.Final → (exit (.error stop, m')).1 = .error stop)
    (meets : Meets x start task state) : Meets y m task state := by
  intro stop final
  rw [runs, ← lets stop ((x (some ⟨task, state, stop⟩)).exec start).2 final, ← meets stop final]

theorem Misses.between (runs : ∀ i, (y i).exec m = exit ((x i).exec start))
    (misses : Misses x start task state) : Misses y m task state := by
  intro stop
  rw [runs, runs, misses stop]

end

/-- A task that a rule meets is issued by it. -/
theorem Meets.issues {ev : Interpreter} {outer : Task}
    (meets : Meets (fun i => (ev.facing i).rules outer) m task state) :
    ev.Issues outer m task state :=
  Stop.exists_shows meets _

theorem Interpreter.Issues.not_misses {ev : Interpreter} {outer : Task}
    (issues : ev.Issues outer m task state) :
    ¬Misses (fun i => (ev.facing i).rules outer) m task state := by
  intro misses
  obtain ⟨stop, differs⟩ := issues
  exact differs (misses stop)

theorem meets_run (ev : Interpreter) (task : Task) (m : Machine) :
    Meets (fun i => (ev.facing i).run task) m task m := by
  intro stop _
  change (((ev.refusing task m stop).run task).exec m).1 = _
  rw [Interpreter.run_refusing, Run.exec_stopAt ⟨rfl, rfl⟩]

theorem misses_run (ev : Interpreter) {other : Task} (differs : ¬(task = other ∧ m = state)) :
    Misses (fun i => (ev.facing i).run other) m task state := by
  intro stop
  change ((ev.refusing task state stop).run other).exec m = _
  rw [Interpreter.run_refusing]
  exact Run.exec_stopAt_of_not differs _ stop

end

end ServerScript
