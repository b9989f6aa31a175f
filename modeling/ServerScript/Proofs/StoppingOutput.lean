import ServerScript.Proofs.HaltedDocument

/-! Output expressions that stop the request. A procedure that is called in the expression may ask
for a stop and still hand back a value, so the expression is evaluated to its end. The document
looks for a stop only after this value was written: it reports the stop, but the text of the value
is added to the response, also behind a redirection, which has just emptied it. -/
namespace ServerScript

namespace Document

/-- Running a document comes to one of its pieces, and no stop has shown before it. -/
inductive Reaches (document : Document) (m : Machine) (piece : Section) (m' : Machine) : Prop where
  | piece {m₁ before rest}
    (hoisted : (Interpreter.hoist document.statements).exec m = (.ok ⟨⟩, m₁))
    (sections : document.sections = before ++ piece :: rest)
    (passed : (renderSections before).exec m₁ = (.ok none, m'))

variable {document : Document} {m m' : Machine} {piece : Section} {e : Expr} {range : Range}
  {reason : Halt}

theorem Reaches.exec_render {result : Except Stop (Option Halt)} {m'' : Machine}
    (reaches : document.Reaches m piece m') (ends : (renderSection piece).exec m' = (result, m''))
    (stops : result ≠ .ok none) : document.render.exec m = (result, m'') := by
  obtain ⟨hoisted, sections, passed⟩ := reaches
  rw [render, Run.exec_bind_ok hoisted, sections, exec_renderSections_append passed, renderSections]
  rcases result with stop | _ | reason
  · exact Run.exec_bind_error ends
  · exact absurd rfl stops
  · rw [Run.exec_bind_ok ends]
    rfl

/-- What comes behind an output expression that asked for a stop: its value is written first, and
then the stop shows. An error of the expression shows in place of it. -/
def afterStop (reason : Halt) :
    Except Stop (Option Value) × Machine → Except Stop (Option Halt) × Machine
  | (.ok found, m) => (.ok (some reason), m.wrote (found.elim "" Value.toText))
  | (.error stop, m) => (.error stop, m)

theorem afterStop_ne_none (ends : Except Stop (Option Value) × Machine) :
    (afterStop reason ends).1 ≠ .ok none := by
  rcases ends with ⟨stop | found, m⟩ <;> exact nofun

theorem afterStop_keeps_iff (ends : Except Stop (Option Value) × Machine) :
    (afterStop reason ends).1 = .ok (some reason) ∧
        (afterStop reason ends).2.site.response = ends.2.site.response ↔
      ∃ found, ends.1 = .ok found ∧ found.elim "" Value.toText = "" := by
  rcases ends with ⟨stop | found, m⟩
  · simp [afterStop]
  · simp [afterStop, Machine.wrote, Response.write_eq_self]

theorem exec_renderSection_output_of_stopping
    (asked : ((Script.output e range).exec m).2.control.halt = some reason) :
    (renderSection (.output e range)).exec m =
      afterStop reason ((Script.output e range).exec m) := by
  obtain ⟨result, m', ends⟩ : ∃ result m', (Script.output e range).exec m = (result, m') :=
    ⟨_, _, rfl⟩
  rw [ends] at asked ⊢
  rw [renderSection]
  rcases result with stop | _ | v
  · rw [Run.exec_bind_error ends]
    rfl
  · rw [Run.exec_bind_ok ends]
    exact Prod.ext (congrArg Except.ok asked) m'.wrote_empty.symm
  · rw [Run.exec_bind_ok ends]
    exact Prod.ext (congrArg Except.ok asked) rfl

end Document

/-- What an output expression does that asks for a stop somewhere inside of it. The stop is there
when the expression ends, and from the moment it was asked for no block runs a statement. But then
the text of the value is written, and only after that the document ends with the stop; if the
expression fails, it ends with the error. So the response is left as the expression left it only if
the value has no text or its error was resumed. -/
theorem stopping_output_is_written (document : Document) (m m' : Machine) (e : Expr)
    (range : Range) (reason : Halt) (start stage : Stage)
    (reaches : document.Reaches m (.output e range) m')
    (starts : (Section.output e range).Starts m' start)
    (path : Relation.ReflTransGen Stage.Leads start stage)
    (asked : stage.run.2.control.halt = some reason) :
    ((Script.output e range).exec m').2.control.halt = some reason ∧
    (∀ n chain stmt rest m₁,
      Relation.ReflTransGen Stage.Leads start ⟨n + 1, chain, .block (stmt :: rest), m₁⟩ →
      m₁.control.halt = some reason →
      Stage.run ⟨n + 1, chain, .block (stmt :: rest), m₁⟩ = (.ok (.halt reason), m₁)) ∧
    document.render.exec m = Document.afterStop reason ((Script.output e range).exec m') ∧
    ((document.render.exec m).1 = .ok (some reason) ∧ (document.render.exec m).2.site.response =
        ((Script.output e range).exec m').2.site.response ↔
      ∃ found, ((Script.output e range).exec m').1 = .ok found ∧
        found.elim "" Value.toText = "") := by
  have stopped : ((Script.output e range).exec m').2.control.halt = some reason :=
    starts.lasts_output (M := .halt reason) (Stage.lasts path (M := .halt reason) asked)
  have rendered := reaches.exec_render (Document.exec_renderSection_output_of_stopping stopped)
    (Document.afterStop_ne_none _)
  refine ⟨stopped, fun n chain stmt rest m₁ _ asked => ?_, rendered, ?_⟩
  · exact Interpreter.exec_execBlock_of_halted _ stmt rest asked
  · rw [rendered]
    exact Document.afterStop_keeps_iff _

/-- `Function f`, whose body is `f = 5` and `Response.Redirect "/login"`. -/
def Procedure.redirecting : Procedure :=
  ⟨⟨"f"⟩, .function, .everyone, false, [],
    [⟨.assign (.ident ⟨"f"⟩) (.literal (.integer 5)) false, {}⟩,
      ⟨.call (.call (.member (.ident ⟨"response"⟩) ⟨"redirect"⟩)
        [.literal (.string "/login")]), {}⟩]⟩

def Expr.redirectingCall : Expr := .call (.ident ⟨"f"⟩) []

/-- The text `secret`, the function, and its value. -/
def Document.redirecting : Document :=
  ⟨none, [.markup "secret", .code [⟨.procedure .redirecting, {}⟩], .output .redirectingCall {}]⟩

def Machine.opened : Machine := { scopes := { globals := [(⟨"response"⟩, .object .response)] } }

def Machine.beforeCall : Machine :=
  ((Document.renderSections [.markup "secret", .code [⟨.procedure .redirecting, {}⟩]]).exec
    ((Interpreter.hoist Document.redirecting.statements).exec opened).2).2

theorem redirecting_output_is_written :
    Document.redirecting.Reaches .opened (.output .redirectingCall {}) .beforeCall ∧
    (Document.redirecting.render.exec .opened).1 = .ok (some (.redirect "/login")) ∧
    (Document.redirecting.render.exec .opened).2.site.response =
      ((Script.output .redirectingCall {}).exec .beforeCall).2.site.response.write "5" := by
  have reaches : Document.redirecting.Reaches .opened (.output .redirectingCall {}) .beforeCall :=
    .piece (Prod.ext (by decide +kernel) rfl) rfl (Prod.ext (by decide +kernel) rfl)
  have inTime : Run.checkDeadline.exec .beforeCall =
      (.ok ⟨⟩, (Run.checkDeadline.exec .beforeCall).2) := Prod.ext (by decide +kernel) rfl
  have text : ((Script.output .redirectingCall {}).exec .beforeCall).1.toOption.map
      (·.elim "" Value.toText) = some "5" := by decide +kernel
  obtain ⟨-, -, rendered, -⟩ := stopping_output_is_written .redirecting _ _ _ {}
    (.redirect "/login") _ _ reaches (.output inTime) .refl (by decide +kernel)
  rw [rendered]
  generalize (Script.output .redirectingCall {}).exec .beforeCall = ends at text
  obtain ⟨stop | found, m⟩ := ends
  · cases text
  · exact ⟨reaches, rfl, congrArg m.site.response.write (Option.some.inj text)⟩

/-- The response is empty after the redirection, and not empty when the document ends with it. -/
theorem value_sent_after_redirect :
    ((Script.output .redirectingCall {}).exec .beforeCall).2.control.halt =
      some (.redirect "/login") ∧
    ((Script.output .redirectingCall {}).exec .beforeCall).2.site.response.body = "" ∧
    (Document.redirecting.render.exec .opened).1 = .ok (some (.redirect "/login")) ∧
    (Document.redirecting.render.exec .opened).2.site.response.body = "5" := by
  decide +kernel

end ServerScript
