import ServerScript.Proofs.Reachability
import ServerScript.Host.Basic

/-! What scripts do to the request that they are run for. Nothing that is run, whatever its end,
takes back or replaces a stop that was asked for, gives the request another number or changes the
application other than by calls of the request. This holds from stage to stage of a run, and from
the handlers of events to the document. -/
namespace ServerScript

/-- The request goes on from one state to another. -/
structure Machine.Continues (m m' : Machine) : Prop where
  control : m.control.Continues m'.control
  site : m.site.Continues m'.site

namespace Machine.Continues

theorem of_same {m m' : Machine} (control : m'.control = m.control) (site : m'.site = m.site) :
    m.Continues m' := by
  refine ⟨?_, ?_⟩
  · rw [control]
    exact .refl _
  · rw [site]
    exact .refl _

theorem refl (m : Machine) : m.Continues m := of_same rfl rfl

theorem trans {m m' m'' : Machine} (first : m.Continues m') (second : m'.Continues m'') :
    m.Continues m'' :=
  ⟨first.control.trans second.control, first.site.trans second.site⟩

end Machine.Continues

def requestExprs (start : Machine) : ExprDiscipline where
  Pre m := start.Continues m
  Step m m' := m.Continues m'
  refl _ := .refl _
  trans := .trans
  keeps := .trans
  moves _ moved := ⟨moved.control, moved.site⟩
  assign _ _ := .of_same rfl rfl
  enterGetter pre _ := ⟨pre.control, pre.site⟩
  leaveGetter _ _ inner := ⟨inner.control, inner.site⟩

def requestStmts (start : Machine) : StmtDiscipline where
  toDiscipline := (requestExprs start).toDiscipline
  exprs := requestExprs start
  declares _ := True
  modes _ := True
  pre_iff := .rfl
  lift _ step := step
  define _ _ _ := .of_same rfl rfl
  constant _ _ := .of_same rfl rfl
  extend _ _ _ := .of_same rfl rfl
  errorMode _ _ := .of_same rfl rfl
  compareMode _ := .of_same rfl rfl
  enterWith pre := ⟨pre.control, pre.site⟩
  leaveWith _ inner := ⟨inner.control, inner.site⟩

def requestRegime (start : Machine) : Regime where
  stmts _ := requestStmts start
  fits _ _ := True
  rest _ := trivial
  inner _ _ _ := trivial
  declared _ _ _ := trivial
  modes _ _ _ := trivial
  body _ _ := trivial
  params _ _ _ _ := trivial
  result _ _ _ := trivial
  scalars _ _ _ _ := trivial
  enter pre _ := ⟨pre.control, pre.site⟩
  leave _ body := ⟨body.control, body.site⟩

theorem Stage.Leads.continues {s s' : Stage} (leads : s.Leads s') : s.state.Continues s'.state := by
  refine ((requestRegime s.state).leads leads (.refl s.state) ?_).1
  cases s.task <;> trivial

def Run.Continues (act : Run α) : Prop := ∀ m : Machine, m.Continues (act.exec m).2

namespace Interpreter

variable (n : Nat)

theorem continues_run (task : Task) : ((within n).run task).Continues := by
  intro m
  have sound := (requestRegime m).sound_within n []
  cases task with
  | expr e => exact (sound.expr e m (.refl m)).step
  | block block => exact (sound.block block trivial m (.refl m)).step
  | invoke decl this values =>
    exact (sound.invoke decl this values trivial (fun _ _ => trivial)
      (fun _ _ => Policy.any_value _) m (.refl m)).step
  | store container index value name =>
    exact (sound.store index value name (fun _ _ => Policy.any_value _) (Policy.any_value _)
      container (Policy.any_value _) m (.refl m)).step

theorem continues_hoist (block : Block) : (hoist block).Continues := by
  intro m
  have hoisted := StmtJudgement.holds_hoist
    (S := ((requestRegime m).stmt []).toStmtJudgement) block
    (fun _ _ _ _ => trivial) fun stmt _ => stmt.kind.obeys_any
  exact (hoisted m (.refl m)).step

end Interpreter

namespace Script

variable (m : Machine)

theorem holds_output (e : Expr) (range : Range) :
    ((requestRegime m).stmt []).holds (fun _ => True) fun _ => output e range := by
  have sound := (requestRegime m).sound_within Interpreter.bound []
  let S := (requestRegime m).stmt []
  exact S.settle (S.bind (S.world .checkDeadline) fun _ _ =>
    S.weaken (S.lift (sound.expr e)) fun _ _ => trivial)

theorem continues_output (e : Expr) (range : Range) : (output e range).Continues := by
  intro m
  exact (holds_output m e range m (.refl m)).step

theorem continues_call? (name : String) (args : List Value) : (call? name args).Continues := by
  intro m
  have sound := (requestRegime m).sound_within Interpreter.bound []
  let J := (requestRegime m).expr []
  have called : J.holds (fun _ => True) fun _ => call? name args := by
    refine J.bind (J.world (Run.worldly_lookup _)) fun found _ => ?_
    split
    · exact J.map (J.holds_callProcedure sound.invoke trivial nofun
        fun _ _ => Policy.any_value _) fun _ _ => trivial
    · exact J.pure trivial
  exact (called m (.refl m)).step

end Script

namespace Document

variable (m : Machine)

theorem holds_renderSection (piece : Section) :
    ((requestRegime m).stmt []).holds (fun _ => True) fun _ => renderSection piece := by
  have sound := (requestRegime m).sound_within Interpreter.bound []
  let S := (requestRegime m).stmt []
  cases piece with
  | markup text => exact S.bind (S.world (.modifyResponse _)) fun _ _ => S.pure trivial
  | code program =>
    refine S.bind (sound.block program trivial) fun flow _ => ?_
    cases flow <;> exact S.pure trivial
  | output e range =>
    refine S.bind (Script.holds_output m e range) fun found _ => ?_
    have finish : S.holds (fun _ => True) fun _ => do return (← get).control.halt :=
      S.look (fun _ _ => rfl) fun _ _ => S.pure trivial
    cases found with
    | none => exact finish
    | some v => exact S.bind (S.world (.modifyResponse _)) fun _ _ => finish

theorem holds_renderSections (pieces : List Section) :
    ((requestRegime m).stmt []).holds (fun _ => True) fun _ => renderSections pieces := by
  induction pieces with
  | nil => exact Judgement.pure _ trivial
  | cons piece rest ih =>
    refine Judgement.bind _ (holds_renderSection m piece) fun halt _ => ?_
    cases halt with
    | none => exact ih
    | some reason => exact Judgement.pure _ trivial

theorem continues_renderSections (pieces : List Section) : (renderSections pieces).Continues := by
  intro m
  exact (holds_renderSections m pieces m (.refl m)).step

theorem continues_render (document : Document) : document.render.Continues := by
  intro m
  have hoisted := StmtJudgement.holds_hoist
    (S := ((requestRegime m).stmt []).toStmtJudgement) document.statements
    (fun _ _ _ _ => trivial) fun stmt _ => stmt.kind.obeys_any
  exact (Judgement.bind _ hoisted (fun _ _ => holds_renderSections m document.sections) m
    (.refl m)).step

def handle (document : Document) (name : String) : Run Unit := do
  Interpreter.hoist document.statements
  discard (Script.call? name [])

theorem continues_handle (document : Document) (name : String) :
    (document.handle name).Continues := by
  intro m
  have hoisted := Interpreter.continues_hoist document.statements m
  rw [handle, Run.exec_bind]
  split
  · rw [Run.discard_eq, Run.exec_bind]
    have called := Script.continues_call? name [] ((Interpreter.hoist document.statements).exec m).2
    split
    · exact hoisted.trans called
    · exact hoisted.trans called
  · exact hoisted

end Document

/-- The request goes on from one script of it to another. -/
structure Exchange.Continues (e e' : Exchange) : Prop where
  control : e.control.Continues e'.control
  site : e.site.Continues e'.site

namespace Exchange.Continues

theorem refl (e : Exchange) : e.Continues e := ⟨.refl _, .refl _⟩

theorem trans {e e' e'' : Exchange} (first : e.Continues e') (second : e'.Continues e'') :
    e.Continues e'' :=
  ⟨first.control.trans second.control, first.site.trans second.site⟩

end Exchange.Continues

namespace Serve

theorem run_bind (x : Serve α) (f : α → Serve β) (e : Exchange) :
    (x >>= f) e =
      match x e with
      | (.ok a, e') => f a e'
      | (.error failure, e') => (.error failure, e') := by
  change (ExceptT.bindCont f (x e).1 (x e).2 : Except Failure β × Exchange) = _
  rcases x e with ⟨_ | a, e'⟩ <;> rfl

def Continues (act : Serve α) : Prop := ∀ e : Exchange, e.Continues (act e).2

theorem Continues.pure (a : α) : Continues (pure a : Serve α) := Exchange.Continues.refl

theorem Continues.get : Continues (get : Serve Exchange) := Exchange.Continues.refl

theorem Continues.bind {x : Serve α} {f : α → Serve β} (first : Continues x)
    (next : ∀ a, Continues (f a)) : Continues (x >>= f) := by
  intro e
  have begun := first e
  rw [run_bind]
  generalize x e = ends at begun
  rcases ends with ⟨_ | a, e'⟩
  · exact begun
  · exact begun.trans (next a e')

end Serve

namespace Host

variable (host : Host)

/-- The exchange that a request starts with. A request without a session starts one. -/
def opening (request : RequestData) (session : Option Session) : Exchange :=
  host.exchange request (some (session.getD { id := Session.idOf host.nextId }))

def serve (document : Document) : Serve (Option Halt) := do
  host.runStart
  host.runScript document document.render

def outcome (ends : Except Failure (Option Halt) × Exchange) : Outcome where
  id := host.nextId
  response := ends.2.site.response
  session := ends.2.site.session.map fun s => { s with isNew := false }
  halt := ends.1.toOption.join
  error := match ends.1 with
    | .ok _ => none
    | .error failure => some failure.report
  elapsed := ends.2.control.elapsed / Control.looksPerMillisecond

theorem execute_eq (document : Document) (request : RequestData) (session : Option Session) :
    host.execute document request session =
      (host.outcome (host.serve document (host.opening request session)),
        host.conclude (host.serve document (host.opening request session)).2) := rfl

theorem runScript_eq {document : Document} {act : Run α} {e : Exchange} {m : Machine}
    {result : Except Stop α} (ends : act.exec (host.machine e) = (result, m)) :
    host.runScript document act e =
      (result.mapError (failureOf document.source m.errorRange),
        { e with site := m.site, control := m.control }) := by
  change act (host.machine e) = (result, m) at ends
  rw [runScript, ends]

theorem continues_runScript (document : Document) {act : Run α} (continues : act.Continues) :
    Serve.Continues (host.runScript document act) := by
  intro e
  exact ⟨(continues (host.machine e)).control, (continues (host.machine e)).site⟩

theorem continues_runEvent (document : Document) (name : String) :
    Serve.Continues (host.runEvent document name) :=
  host.continues_runScript document (document.continues_handle name)

theorem continues_runStart : Serve.Continues host.runStart := by
  rw [runStart]
  cases host.events with
  | none => exact .pure ()
  | some document =>
    refine .bind (.get) fun e => ?_
    refine .bind (x := modify _) (fun _ => ⟨.refl _, .refl _⟩) fun _ => ?_
    have session : Serve.Continues (do
        if (← get).site.session.any (·.isNew) then host.runEvent document "session_onstart") := by
      refine .bind .get fun e => ?_
      split
      · exact host.continues_runEvent document _
      · exact .pure ()
    split
    · exact .bind (host.continues_runEvent document _) fun _ => session
    · exact session

end Host
end ServerScript
