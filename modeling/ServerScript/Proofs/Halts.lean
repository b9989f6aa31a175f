import ServerScript.Proofs.Lasting
import ServerScript.Proofs.Routing

/-! Stops of a request are neither lost nor confused. A statement may ask for a stop in the middle
of any expression; procedures drop the flow of their bodies, and loops and selections consume
exits. Still the flow of a block tells the stop exactly: an exit leaves a construct only when no
stop was asked for, and a stop that leaves it is the one that was asked for first. -/
namespace ServerScript

/-- A flow that leaves a construct early tells the truth about the stop. -/
def Flow.Tells (c : Control) : Flow → Prop
  | .normal => True
  | .exit _ => c.halt = none
  | .halt reason => c.halt = some reason

def Flow.Reports (c : Control) (flow : Flow) : Prop :=
  ∀ reason, flow = .halt reason ↔ c.halt = some reason

theorem Flow.Reports.tells {c : Control} {flow : Flow} (reports : flow.Reports c) :
    flow.Tells c := by
  cases flow with
  | normal => trivial
  | exit kind =>
    refine Option.eq_none_iff_forall_ne_some.mpr fun reason asked => ?_
    cases (reports reason).mpr asked
  | halt reason => exact (reports reason).mp rfl

theorem Flow.Tells.reports {c : Control} {flow : Flow} (tells : flow.Tells c)
    (early : flow ≠ .normal) : flow.Reports c := by
  intro reason
  cases flow with
  | normal => exact absurd rfl early
  | exit kind =>
    have none : c.halt = none := tells
    simp [none]
  | halt first =>
    have asked : c.halt = some first := tells
    simp [asked, eq_comm]

theorem Flow.Tells.outside {c : Control} {flow : Flow} (tells : flow.Tells c)
    (own : Option ExitKind) : (flow.outside own).Tells c := by
  cases flow with
  | exit kind =>
    rw [Flow.outside]
    split
    · trivial
    · exact tells
  | _ => exact tells

theorem Flow.reports_halt (c : Control) : (c.halt.elim normal halt).Reports c := by
  cases asked : c.halt <;> simp [Reports, asked]

def Run.Truthful (act : Run Flow) : Prop :=
  ∀ m m' flow, act.exec m = (.ok flow, m') → flow.Tells m'.control

namespace Interpreter

variable {ev : Interpreter} (bodies : ∀ block, (ev.block block).Truthful)

include bodies

theorem tells_execKind {kind : StmtKind} {m m' : Machine} {flow : Flow}
    (ends : (execKind ev kind).exec m = (.ok flow, m')) (none : m.control.halt = none) :
    flow.Tells m'.control := by
  by_cases exits : ∃ exit, kind = .exit exit
  · obtain ⟨exit, rfl⟩ := exits
    cases ends
    exact none
  · refine (routes_execKind ev (not_exists.mp exits)).ends ev.block
      (P := fun flow m => flow.Tells m.control) (fun _ => trivial) (fun _ _ tells => tells)
      (fun body _ m m' flow ran => ?_) ends
    exact (bodies body m m' flow ran).outside kind.own

omit bodies in
theorem exec_execBlock_of_halted (ev : Interpreter) (stmt : Stmt) (rest : Block) {m : Machine}
    {reason : Halt} (asked : m.control.halt = some reason) :
    (ev.execBlock (stmt :: rest)).exec m = (.ok (.halt reason), m) := by
  rw [execBlock, Run.exec_bind_ok (exec_execStmt_of_halted ev stmt asked)]
  rfl

omit bodies in
theorem halt_of_checkDeadline {m m' : Machine} (ends : Run.checkDeadline.exec m = (.ok ⟨⟩, m')) :
    m'.control.halt = m.control.halt := by
  obtain ⟨⟨⟩, m₁, ticked, ends⟩ := Run.exists_of_exec_bind_eq_ok ends
  obtain ⟨-, rfl⟩ := Prod.mk.inj ticked
  rw [Run.exec_get_bind] at ends
  split at ends
  · cases ends
  · cases ends
    rfl

omit bodies in
/-- How a statement ends without an error: it was not run, its own flow leaves it early, or it tells
only of a stop. -/
theorem execStmt_cases {stmt : Stmt} {m m' : Machine} {flow : Flow}
    (ends : (execStmt ev stmt).exec m = (.ok flow, m')) :
    (∃ reason, m.control.halt = some reason ∧ flow = .halt reason ∧ m' = m) ∨
    (m.control.halt = none ∧ flow ≠ .normal ∧ ∃ m₁, Run.checkDeadline.exec m = (.ok ⟨⟩, m₁) ∧
      (execKind ev stmt.kind).exec m₁ = (.ok flow, m')) ∨
    flow = m'.control.halt.elim .normal .halt := by
  cases asked : m.control.halt with
  | some reason =>
    rw [exec_execStmt_of_halted ev stmt asked] at ends
    obtain ⟨⟨rfl⟩, rfl⟩ := Prod.mk.inj ends
    exact .inl ⟨reason, rfl, rfl, rfl⟩
  | none =>
    rw [exec_execStmt ev stmt asked] at ends
    split at ends
    · next inner m₁ worked =>
      obtain ⟨⟨rfl⟩, rfl⟩ := Prod.mk.inj ends
      split
      · exact .inr (.inr rfl)
      · next early =>
        obtain ⟨⟨⟩, m₂, looked, ran⟩ := Run.exists_of_exec_bind_eq_ok worked
        exact .inr (.inl ⟨rfl, early, m₂, looked, ran⟩)
    · split at ends
      · cases ends
      · obtain ⟨⟨rfl⟩, rfl⟩ := Prod.mk.inj ends
        exact .inr (.inr rfl)
    · cases ends

theorem reports_execStmt {stmt : Stmt} {m m' : Machine} {flow : Flow}
    (ends : (execStmt ev stmt).exec m = (.ok flow, m')) : flow.Reports m'.control := by
  rcases execStmt_cases ends with
    ⟨reason, asked, rfl, rfl⟩ | ⟨running, early, m₁, looked, ran⟩ | rfl
  · exact Flow.Tells.reports asked nofun
  · exact (tells_execKind bodies ran ((halt_of_checkDeadline looked).trans running)).reports early
  · exact Flow.reports_halt _

theorem reports_execBlock {block : Block} {m m' : Machine} {flow : Flow} (filled : block ≠ [])
    (ends : (execBlock ev block).exec m = (.ok flow, m')) : flow.Reports m'.control := by
  induction block generalizing m with
  | nil => exact absurd rfl filled
  | cons stmt rest ih =>
    obtain ⟨first, m₁, begun, ends⟩ := Run.exists_of_exec_bind_eq_ok ends
    have reports := reports_execStmt bodies begun
    match first, rest, ends with
    | .normal, [], ends =>
      obtain ⟨⟨rfl⟩, rfl⟩ := Prod.mk.inj ends
      exact reports
    | .normal, next :: rest, ends => exact ih nofun ends
    | .exit kind, rest, ends =>
      obtain ⟨⟨rfl⟩, rfl⟩ := Prod.mk.inj ends
      exact reports
    | .halt reason, rest, ends =>
      obtain ⟨⟨rfl⟩, rfl⟩ := Prod.mk.inj ends
      exact reports

omit bodies in
theorem truthful_within (n : Nat) (block : Block) : ((within n).block block).Truthful := by
  induction n generalizing block with
  | zero =>
    intro m m' flow ends
    cases ends
  | succ n ih =>
    intro m m' flow ends
    change ((within n).execBlock block).exec m = _ at ends
    cases block with
    | nil =>
      cases ends
      trivial
    | cons stmt rest => exact (reports_execBlock ih (List.cons_ne_nil stmt rest) ends).tells

end Interpreter

/-- Stops are never lost, replaced or confused. The flow of a block that is not empty tells exactly
which stop was asked for by its end. The first stop that is asked for stays, from stage to stage of
a run, at the end of every stage and of all that are run around it, and over the scripts of a
request. What starts after it does nothing but report it. -/
theorem halts_never_lost :
    (∀ (n : Nat) (block : Block) (m m' : Machine) (flow : Flow), block ≠ [] →
      ((Interpreter.within n).execBlock block).exec m = (.ok flow, m') →
      ∀ reason, flow = .halt reason ↔ m'.control.halt = some reason) ∧
    (∀ (args : List Value) (m : Machine),
      ((Members.response.call "end" args).exec m).2.control.halt =
        (m.control.halt <|> some .finish) ∧
      ((Members.response.call "redirect" args).exec m).2.control.halt =
        (m.control.halt <|> some (.redirect (Value.arg args 0).toText))) ∧
    (∀ (s s' : Stage) (reason : Halt), Relation.ReflTransGen Stage.Leads s s' →
      (s.state.control.halt = some reason → s'.state.control.halt = some reason) ∧
      (s'.state.control.halt = some reason → s'.run.2.control.halt = some reason) ∧
      (s'.run.2.control.halt = some reason → s.run.2.control.halt = some reason)) ∧
    (∀ (host : Host) (document : Document) (e : Exchange) (reason : Halt),
      (e.control.halt = some reason →
        (host.runStart e).2.control.halt = some reason ∧
        (host.runScript document document.render e).2.control.halt = some reason) ∧
      ∀ s : Stage, s.run.2.control.halt = some reason →
        (document.Starts (host.machine e) s →
          (host.runScript document document.render e).2.control.halt = some reason) ∧
        ∀ name, document.Handles name (host.machine e) s →
          (host.runEvent document name e).2.control.halt = some reason) ∧
    ∀ (n : Nat) (stmt : Stmt) (rest : Block) (m : Machine) (reason : Halt),
      m.control.halt = some reason →
      ((Interpreter.within n).execStmt stmt).exec m = (.ok (.halt reason), m) ∧
      ((Interpreter.within n).execBlock (stmt :: rest)).exec m = (.ok (.halt reason), m) := by
  refine ⟨fun n block m m' flow filled ends => ?_, fun args m => ⟨rfl, rfl⟩,
    fun s s' reason path => ⟨?_, ?_, ?_⟩, fun host document e reason => ⟨fun asked => ⟨?_, ?_⟩,
      fun s asked => ⟨fun starts => ?_, fun name handles => ?_⟩⟩,
    fun n stmt rest m reason asked => ⟨?_, ?_⟩⟩
  · exact Interpreter.reports_execBlock (Interpreter.truthful_within n) filled ends
  · exact (Stage.continues path).control reason
  · exact (Interpreter.continues_run s'.bound s'.task s'.state).control reason
  · exact Stage.lasts path (M := .halt reason)
  · exact (host.continues_runStart e).control reason asked
  · exact (host.continues_runScript document document.continues_render e).control reason asked
  · exact starts.lasts (M := .halt reason) asked
  · exact handles.lasts (M := .halt reason) asked
  · exact Interpreter.exec_execStmt_of_halted _ stmt asked
  · exact Interpreter.exec_execBlock_of_halted _ stmt rest asked

/-- `Function f`, whose body is `f = True` and `Response.End`. -/
def Procedure.ending : Procedure :=
  ⟨⟨"f"⟩, .function, .everyone, false, [],
    [⟨.assign (.ident ⟨"f"⟩) (.literal (.bool true)) false, {}⟩,
      ⟨.call (.member (.ident ⟨"response"⟩) ⟨"end"⟩), {}⟩]⟩

/-- `Do`, `If f() Then Exit Do`, `Loop`. -/
def Script.exitAfterEnd : Block :=
  [⟨.doLoop none [⟨.choose [⟨.call (.ident ⟨"f"⟩) [], [⟨.exit .doLoop, {}⟩]⟩] none, {}⟩], {}⟩]

def Machine.withEnding : Machine :=
  ((Interpreter.defineProcedure .ending).exec
    { scopes := { globals := [(⟨"response"⟩, .object .response)] } }).2

def Machine.ended : Machine :=
  (((Interpreter.within 12).execBlock Script.exitAfterEnd).exec .withEnding).2

theorem exit_after_end_halts :
    (((Interpreter.within 12).execBlock Script.exitAfterEnd).exec .withEnding).1 =
      .ok (.halt .finish) ∧
    Machine.ended.control.halt = some .finish ∧
    ((Interpreter.within 12).execBlock Script.exitAfterEnd).exec .ended =
      (.ok (.halt .finish), .ended) := by
  have ends : (((Interpreter.within 12).execBlock Script.exitAfterEnd).exec .withEnding).1 =
      .ok (.halt .finish) := by decide +kernel
  have asked : Machine.ended.control.halt = some .finish :=
    (halts_never_lost.1 12 Script.exitAfterEnd .withEnding .ended _ (by decide)
      (Prod.ext ends rfl) .finish).mp rfl
  exact ⟨ends, asked, (halts_never_lost.2.2.2.2 12 _ [] .ended .finish asked).2⟩

end ServerScript
