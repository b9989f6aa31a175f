import ServerScript.Proofs.Halts

/-! A document that is started after a stop, as when the handler of an event has ended the request.
Each kind of piece looks for a stop in its own way: code looks ahead of every statement, an output
expression only after it was evaluated and written, and text not at all. So a document is not
stopped where it starts, but at its first statement or after its first output expression. -/
namespace ServerScript

/-- A piece that is passed without a look for a stop: text, and code without statements. -/
def Section.passes : Section → Bool
  | .markup _ => true
  | .code program => program.isEmpty
  | .output .. => false

def Section.text : Section → String
  | .markup text => text
  | _ => ""

namespace Document

/-- The text of the pieces ahead of the first look for a stop. -/
def textAhead : List Section → String
  | [] => ""
  | piece :: rest => if piece.passes then piece.text ++ textAhead rest else ""

def stopper (document : Document) : Option Section := document.sections.find? (!·.passes)

end Document

theorem Response.write_empty (r : Response) : r.write "" = r := by simp [write]

theorem Response.write_write (r : Response) (a b : String) :
    (r.write a).write b = r.write (a ++ b) := by simp [write, String.append_assoc]

theorem Response.write_eq_self {r : Response} {text : String} : r.write text = r ↔ text = "" := by
  refine ⟨fun same => ?_, fun empty => empty ▸ r.write_empty⟩
  have body : r.body ++ text = r.body := congrArg Response.body same
  have length := congrArg String.length body
  rw [String.length_append] at length
  exact String.length_eq_zero_iff.mp (by omega)

/-- The state after a text was written to the client. -/
def Machine.wrote (m : Machine) (text : String) : Machine :=
  { m with site := { m.site with response := m.site.response.write text } }

theorem Machine.wrote_empty (m : Machine) : m.wrote "" = m := by
  rw [wrote, Response.write_empty]

theorem Machine.wrote_wrote (m : Machine) (a b : String) :
    (m.wrote a).wrote b = m.wrote (a ++ b) := by
  simp only [wrote, Response.write_write]

def Run.Silent (act : Run α) : Prop :=
  ∀ m : Machine, (act.exec m).2.site = m.site ∧ (act.exec m).2.control = m.control

theorem Run.Silent.bind {x : Run α} {f : α → Run β} (first : Silent x)
    (next : ∀ a, Silent (f a)) : Silent (x >>= f) := by
  intro m
  rw [exec_bind]
  split
  · exact ⟨(next _ _).1.trans (first m).1, (next _ _).2.trans (first m).2⟩
  · exact first m

namespace Interpreter

theorem silent_defineCallable (name : Name) (target : Callable) :
    (defineCallable name target).Silent := by
  refine .bind (fun _ => ⟨rfl, rfl⟩) fun id m => ?_
  rw [Run.modifyScopes, Run.exec_get_bind]
  cases m.scopes.define name (.callable id target) <;> exact ⟨rfl, rfl⟩

theorem silent_hoist (block : Block) : (hoist block).Silent := by
  induction block with
  | nil => exact fun _ => ⟨rfl, rfl⟩
  | cons stmt rest ih =>
    refine .bind ?_ fun _ => ih
    dsimp only
    split
    · exact silent_defineCallable _ _
    · next decl _ =>
      refine .bind ?_ fun _ => silent_defineCallable _ _
      cases ClassDef.ofDecl decl <;> exact fun _ => ⟨rfl, rfl⟩
    · exact fun _ => ⟨rfl, rfl⟩

end Interpreter

theorem Script.exec_of_halted (stmt : Stmt) (rest : Block) {m : Machine} {reason : Halt}
    (asked : m.control.halt = some reason) :
    (exec (stmt :: rest)).exec m = (.ok (.halt reason), m) := by
  have bound : Interpreter.bound = 0x3fffffffffffffff + 1 := rfl
  rw [exec, interpreter, bound]
  exact Interpreter.exec_execBlock_of_halted _ stmt rest asked

namespace Document

/-- What an output expression does: its text is written, unless an error was resumed. -/
def emit (e : Expr) (range : Range) : Run Unit := do
  match ← Script.output e range with
  | some v => Members.modifyResponse (·.write v.toText)
  | none => pure ()

variable {m : Machine} {reason : Halt}

theorem exec_renderSection_of_passes {piece : Section} (passes : piece.passes = true) :
    (renderSection piece).exec m = (.ok none, m.wrote piece.text) := by
  cases piece with
  | markup text => rfl
  | code program =>
    cases program with
    | nil =>
      have same : m.wrote (Section.text (.code [])) = m := m.wrote_empty
      rw [same]
      rfl
    | cons stmt rest => cases passes
  | output e range => cases passes

theorem exec_renderSection_output_of_halted (e : Expr) (range : Range)
    (asked : m.control.halt = some reason) :
    (renderSection (.output e range)).exec m =
      (emit e range >>= fun _ => pure (some reason)).exec m := by
  rw [renderSection, emit, bind_assoc]
  refine Run.exec_bind_congr fun found m' ends => ?_
  have still := (Script.continues_output e range m).control reason asked
  rw [ends] at still
  cases found with
  | none => exact Prod.ext (congrArg Except.ok still) rfl
  | some v => exact Prod.ext (congrArg Except.ok still) rfl

theorem exec_renderSections_of_halted (pieces : List Section)
    (asked : m.control.halt = some reason) :
    (renderSections pieces).exec m =
      match pieces.find? (!·.passes) with
      | none => (.ok none, m.wrote (textAhead pieces))
      | some (.output e range) =>
        (emit e range >>= fun _ => pure (some reason)).exec (m.wrote (textAhead pieces))
      | some _ => (.ok (some reason), m.wrote (textAhead pieces)) := by
  induction pieces generalizing m with
  | nil =>
    rw [textAhead, Machine.wrote_empty]
    rfl
  | cons piece rest ih =>
    cases passes : piece.passes with
    | true =>
      rw [renderSections, Run.exec_bind_ok (exec_renderSection_of_passes passes), textAhead,
        if_pos passes, List.find?_cons_of_neg (by simp [passes]), ← Machine.wrote_wrote]
      exact ih asked
    | false =>
      rw [textAhead, if_neg (by simp [passes]), List.find?_cons_of_pos (by simp [passes]),
        Machine.wrote_empty, renderSections]
      cases piece with
      | markup text => cases passes
      | code program =>
        cases program with
        | nil => cases passes
        | cons stmt rest =>
          have stopped : (renderSection (.code (stmt :: rest))).exec m = (.ok (some reason), m) := by
            rw [renderSection, Run.exec_bind_ok (Script.exec_of_halted stmt rest asked)]
            rfl
          rw [Run.exec_bind_ok stopped]
          rfl
      | output e range =>
        rw [Run.exec_bind, exec_renderSection_output_of_halted e range asked, ← Run.exec_bind,
          bind_assoc]
        rfl

theorem exec_render_of_halted {document : Document} {m₁ : Machine}
    (asked : m.control.halt = some reason)
    (hoisted : (Interpreter.hoist document.statements).exec m = (.ok ⟨⟩, m₁)) :
    document.render.exec m =
      match document.stopper with
      | none => (.ok none, m₁.wrote (textAhead document.sections))
      | some (.output e range) =>
        (emit e range >>= fun _ => pure (some reason)).exec (m₁.wrote (textAhead document.sections))
      | some _ => (.ok (some reason), m₁.wrote (textAhead document.sections)) := by
  have silent := Interpreter.silent_hoist document.statements m
  rw [hoisted] at silent
  rw [render, Run.exec_bind_ok hoisted]
  exact exec_renderSections_of_halted document.sections (silent.2 ▸ asked)

/-- Nothing is added to the response between the definitions of a document and its first look for a
stop, and there is such a look. -/
def StopsAtOnce (document : Document) (m : Machine) : Prop :=
  match document.stopper with
  | none => False
  | some (.output e range) =>
    ((emit e range).exec (m.wrote (textAhead document.sections))).1 = .ok ⟨⟩ ∧
      ((emit e range).exec (m.wrote (textAhead document.sections))).2.site.response =
        m.site.response
  | some _ => textAhead document.sections = ""

theorem stopsAtOnce_iff {document : Document} {m₁ : Machine}
    (asked : m.control.halt = some reason)
    (hoisted : (Interpreter.hoist document.statements).exec m = (.ok ⟨⟩, m₁)) :
    (document.render.exec m).1 = .ok (some reason) ∧
        (document.render.exec m).2.site.response = m.site.response ↔
      document.StopsAtOnce m₁ := by
  have silent := Interpreter.silent_hoist document.statements m
  rw [hoisted] at silent
  rw [exec_render_of_halted asked hoisted, StopsAtOnce, ← silent.1]
  split
  · simp
  · next e range found =>
    generalize m₁.wrote (textAhead document.sections) = m₂
    cases ended : ((emit e range).exec m₂).1 with
    | error stop =>
      rw [Run.exec_bind_error (Prod.ext ended rfl)]
      simp
    | ok _ =>
      rw [Run.exec_bind_ok (Prod.ext ended rfl)]
      simp
  · exact (and_iff_right rfl).trans Response.write_eq_self

end Document

open Document in
/-- What a document does that starts after a stop. Its first statement does nothing and reports the
stop, and so does its first output expression once it was evaluated and written; but the text ahead
of them is written, and a document that has neither does not report the stop. So a request that was
stopped by the handler of an event ends as that left it only if the document stops at once. -/
theorem document_after_stop (document : Document) (reason : Halt) :
    (∀ m m₁ : Machine, m.control.halt = some reason →
      (Interpreter.hoist document.statements).exec m = (.ok ⟨⟩, m₁) →
      m₁.site = m.site ∧ m₁.control = m.control ∧
      (document.render.exec m =
        match document.stopper with
        | none => (.ok none, m₁.wrote (textAhead document.sections))
        | some (.output e range) =>
          (emit e range >>= fun _ => pure (some reason)).exec
            (m₁.wrote (textAhead document.sections))
        | some _ => (.ok (some reason), m₁.wrote (textAhead document.sections))) ∧
      ((document.render.exec m).1 = .ok (some reason) ∧
          (document.render.exec m).2.site.response = m.site.response ↔
        document.StopsAtOnce m₁)) ∧
    ∀ (host : Host) (request : RequestData) (session : Option Session) (exchange : Exchange)
      (m₁ : Machine), host.runStart (host.opening request session) = (.ok ⟨⟩, exchange) →
      exchange.control.halt = some reason →
      (Interpreter.hoist document.statements).exec (host.machine exchange) = (.ok ⟨⟩, m₁) →
      (host.execute document request session).1.halt =
        (document.render.exec (host.machine exchange)).1.toOption.join ∧
      (host.execute document request session).1.response =
        (document.render.exec (host.machine exchange)).2.site.response ∧
      ((host.execute document request session).1.halt = some reason ∧
          (host.execute document request session).1.response = exchange.site.response ↔
        document.StopsAtOnce m₁) := by
  refine ⟨fun m m₁ asked hoisted => ?_,
    fun host request session exchange m₁ started asked hoisted => ?_⟩
  · have silent := Interpreter.silent_hoist document.statements m
    rw [hoisted] at silent
    exact ⟨silent.1, silent.2, exec_render_of_halted asked hoisted, stopsAtOnce_iff asked hoisted⟩
  · have iff := stopsAtOnce_iff (m := host.machine exchange) asked hoisted
    obtain ⟨result, m, rendered⟩ : ∃ result m,
        document.render.exec (host.machine exchange) = (result, m) := ⟨_, _, rfl⟩
    rw [rendered] at iff ⊢
    have halt : (host.execute document request session).1.halt = result.toOption.join := by
      rw [Host.execute_eq, Host.serve, Serve.run_bind, started]
      dsimp only
      rw [host.runScript_eq rendered]
      cases result <;> rfl
    have response : (host.execute document request session).1.response = m.site.response := by
      rw [Host.execute_eq, Host.serve, Serve.run_bind, started]
      dsimp only
      rw [host.runScript_eq rendered]
      rfl
    refine ⟨halt, response, ?_⟩
    rw [halt, response, ← iff]
    refine and_congr_left fun _ => ?_
    rcases result with stop | _ | reason' <;> simp [Except.toOption]

theorem Serve.eq_ok_of_isOk {ends : Except Failure Unit × Exchange} (succeeds : ends.1.isOk) :
    ends = (.ok ⟨⟩, ends.2) := by
  obtain ⟨_ | _, e⟩ := ends
  · cases succeeds
  · rfl

theorem Host.control_machine (host : Host) (e : Exchange) :
    (host.machine e).control = e.control := rfl

theorem Host.site_machine (host : Host) (e : Exchange) : (host.machine e).site = e.site := rfl

def Host.endingSessions : Host where
  events := some (.ofProgram [⟨.procedure ⟨⟨"session_onstart"⟩, .sub, .everyone, false, [],
    [⟨.call (.member (.ident ⟨"response"⟩) ⟨"end"⟩), {}⟩]⟩, {}⟩])

def Exchange.sessionEnded : Exchange :=
  (Host.endingSessions.runStart (Host.endingSessions.opening {} none)).2

def Document.greeting : Document :=
  ⟨none, [.markup "Hello", .code [⟨.call (.call (.member (.ident ⟨"response"⟩) ⟨"write"⟩)
    [.literal (.string ", world")]), {}⟩]]⟩

theorem greeting_after_stop :
    Exchange.sessionEnded.control.halt = some .finish ∧
    (Host.endingSessions.execute .greeting).1.halt = some .finish ∧
    (Host.endingSessions.execute .greeting).1.response =
      Exchange.sessionEnded.site.response.write "Hello" ∧
    ¬Document.greeting.StopsAtOnce (Host.endingSessions.machine .sessionEnded) := by
  have succeeds : (Host.endingSessions.runStart (Host.endingSessions.opening {} none)).1.isOk := by
    decide +kernel
  have started := Serve.eq_ok_of_isOk succeeds
  have asked : Exchange.sessionEnded.control.halt = some .finish := by decide +kernel
  have hoisted : ∀ m, (Interpreter.hoist Document.greeting.statements).exec m = (.ok ⟨⟩, m) :=
    fun _ => rfl
  have begun : (Host.endingSessions.machine .sessionEnded).control.halt = some .finish := by
    rw [Host.control_machine, asked]
  obtain ⟨after, served⟩ := document_after_stop .greeting .finish
  obtain ⟨-, -, rendered, -⟩ := after _ _ begun (hoisted _)
  obtain ⟨halt, response, -⟩ := served _ {} none .sessionEnded _ started asked (hoisted _)
  have text : Document.textAhead Document.greeting.sections = "Hello" := by decide
  have filled : Document.textAhead Document.greeting.sections ≠ "" := by decide
  rw [rendered, text] at halt response
  refine ⟨asked, halt, ?_, filled⟩
  rw [response, ← Host.site_machine]
  rfl

def Document.plain : Document := ⟨none, [.markup "Hello"]⟩

/-- A document of text alone is sent whole after the stop, and the stop is not reported. -/
theorem text_sent_after_stop :
    Exchange.sessionEnded.control.halt = some .finish ∧
    Exchange.sessionEnded.site.response.body = "" ∧
    ((Interpreter.hoist Document.plain.statements).exec
      (Host.endingSessions.machine .sessionEnded)).1 = .ok ⟨⟩ ∧
    (Document.plain.render.exec (Host.endingSessions.machine .sessionEnded)).1 = .ok none ∧
    (Host.endingSessions.execute .plain).1.halt = none ∧
    (Host.endingSessions.execute .plain).1.response.body = "Hello" := by
  decide +kernel

end ServerScript
