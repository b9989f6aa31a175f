import ServerScript.Proofs.Lasting

/-! The scripts that serve one request. There are up to three of them, the start of the application,
the start of the session and the page; those that are run are recorded as attempts, in their order
and up to the first one that fails. Serving a request ends as its last attempt does. -/
namespace ServerScript

inductive Phase where
  | applicationStart
  | sessionStart
  | page
  deriving DecidableEq

namespace Phase

def all : List Phase := [applicationStart, sessionStart, page]

def event? : Phase → Option String
  | applicationStart => some "application_onstart"
  | sessionStart => some "session_onstart"
  | page => none

def script (document : Document) (phase : Phase) : Run (Option Halt) :=
  match phase.event? with
  | some name => do
    document.handle name
    return none
  | none => document.render

end Phase

/-- A script that was started for a request, in the state that it started in. -/
structure Attempt where
  phase : Phase
  document : Document
  start : Machine

namespace Attempt

variable (a : Attempt)

def ends : Except Stop (Option Halt) × Machine := (a.phase.script a.document).exec a.start

def result : Except Failure (Option Halt) :=
  a.ends.1.mapError (Host.failureOf a.document.source a.ends.2.errorRange)

/-- The exchange after the script. The start of the application counts however it ended. -/
def leave (e : Exchange) : Exchange where
  site := a.ends.2.site
  control := a.ends.2.control
  startup := if a.phase = .applicationStart then e.startup.start.2 else e.startup

def Starts (s : Stage) : Prop :=
  match a.phase.event? with
  | some name => a.document.Handles name a.start s
  | none => a.document.Starts a.start s

variable {a}

theorem Starts.lasts {s : Stage} {M : Mark} (starts : a.Starts s) (shown : M.On s.run) :
    M.On a.ends := by
  rw [Starts] at starts
  rw [ends, Phase.script]
  split at starts
  · exact (starts.lasts shown).bind fun _ _ _ => .refl _
  · exact starts.lasts shown

end Attempt

namespace Host

variable (host : Host) (page : Document)

def due? (e : Exchange) : Phase → Option Document
  | .applicationStart => host.events.filter fun _ => !e.startup.started
  | .sessionStart => host.events.filter fun _ => e.site.session.any (·.isNew)
  | .page => some page

def attempt (e : Exchange) (phase : Phase) (document : Document) : Attempt :=
  ⟨phase, document, host.machine e⟩

def follow : List Phase → Exchange → List Attempt × Exchange
  | [], e => ([], e)
  | phase :: rest, e =>
    match host.due? page e phase with
    | none => follow rest e
    | some document =>
      let a := host.attempt e phase document
      if a.ends.1.isOk then
        (a :: (follow rest (a.leave e)).1, (follow rest (a.leave e)).2)
      else ([a], a.leave e)

end Host

def Attempt.verdict (log : List Attempt) : Except Failure (Option Halt) :=
  match log.getLast? with
  | some a => a.result
  | none => .ok none

theorem Attempt.verdict_singleton (a : Attempt) : verdict [a] = a.result := rfl

theorem Startup.start_of_started {s : Startup} (started : s.started = true) : s.start.2 = s := by
  obtain ⟨_, ended⟩ := s
  cases started
  rfl

namespace Host

variable {host : Host} {page : Document} {e : Exchange} {phase : Phase} {rest : List Phase}

-- The equations of the recursion are derived here, not by several of the proofs below at once.
attribute [local simp] follow

theorem follow_of_not_due (none : host.due? page e phase = none) :
    host.follow page (phase :: rest) e = host.follow page rest e := by
  rw [follow, none]

theorem follow_of_ok {document : Document} (due : host.due? page e phase = some document)
    (ok : (host.attempt e phase document).ends.1.isOk) :
    host.follow page (phase :: rest) e =
      (host.attempt e phase document ::
        (host.follow page rest ((host.attempt e phase document).leave e)).1,
        (host.follow page rest ((host.attempt e phase document).leave e)).2) := by
  rw [follow, due]
  exact if_pos ok

theorem follow_of_error {document : Document} (due : host.due? page e phase = some document)
    (failed : (host.attempt e phase document).ends.1.isOk = false) :
    host.follow page (phase :: rest) e =
      ([host.attempt e phase document],
        (host.attempt e phase document).leave e) := by
  rw [follow, due]
  exact if_neg (by simp [failed])

theorem phases_follow (phases : List Phase) (e : Exchange) :
    ((host.follow page phases e).1.map (·.phase)).Sublist phases := by
  fun_induction follow host page phases e with
  | case1 e => exact .slnil
  | case2 phase rest e due ih => exact ih.cons phase
  | case3 phase rest e document due a ok ih => exact ih.cons_cons phase
  | case4 phase rest e document due a failed => exact (List.nil_sublist rest).cons_cons phase

theorem getLast?_follow {failing : Attempt} {stop : Stop} (phases : List Phase) (e : Exchange)
    (member : failing ∈ (host.follow page phases e).1) (failed : failing.ends.1 = .error stop) :
    (host.follow page phases e).1.getLast? = some failing := by
  fun_induction follow host page phases e with
  | case1 e => cases member
  | case2 phase rest e due ih => exact ih member
  | case3 phase rest e document due a ok ih =>
    rcases List.mem_cons.mp member with rfl | member
    · rw [failed] at ok
      cases ok
    · rw [List.getLast?_cons, ih member]
      rfl
  | case4 phase rest e document due a _ =>
    rw [List.mem_singleton.mp member]
    rfl

theorem follow_of_eq_nil (phases : List Phase) (e : Exchange)
    (none : (host.follow page phases e).1 = []) : (host.follow page phases e).2 = e := by
  fun_induction follow host page phases e with
  | case1 e => rfl
  | case2 phase rest e due ih => exact ih none
  | case3 phase rest e document due a ok ih => cases none
  | case4 phase rest e document due a failed => cases none

theorem site_follow {last : Attempt} (phases : List Phase) (e : Exchange)
    (ends : (host.follow page phases e).1.getLast? = some last) :
    (host.follow page phases e).2.site = last.ends.2.site := by
  fun_induction follow host page phases e with
  | case1 e => cases ends
  | case2 phase rest e due ih => exact ih ends
  | case3 phase rest e document due a ok ih =>
    cases more : (host.follow page rest (a.leave e)).1 with
    | nil =>
      rw [more] at ends
      cases ends
      rw [follow_of_eq_nil rest _ more]
      rfl
    | cons b others =>
      refine ih ?_
      rw [more, List.getLast?_cons_cons] at ends
      rw [more, ends]
  | case4 phase rest e document due a failed =>
    cases ends
    rfl

theorem startup_follow_of_notMem (phases : List Phase) (e : Exchange)
    (other : .applicationStart ∉ phases) : (host.follow page phases e).2.startup = e.startup := by
  fun_induction follow host page phases e with
  | case1 e => rfl
  | case2 phase rest e due ih => exact ih (List.not_mem_of_not_mem_cons other)
  | case3 phase rest e document due a ok ih =>
    rw [ih (List.not_mem_of_not_mem_cons other)]
    exact if_neg (List.ne_of_not_mem_cons other).symm
  | case4 phase rest e document due a failed =>
    exact if_neg (List.ne_of_not_mem_cons other).symm

variable (host page e) in
theorem isSome_due?_applicationStart :
    (host.due? page e .applicationStart).isSome ↔
      host.events.isSome ∧ e.startup.started = false := by
  rw [due?]
  cases host.events <;> simp

theorem mem_follow_cons (other : phase ∉ rest) :
    phase ∈ (host.follow page (phase :: rest) e).1.map (·.phase) ↔
      (host.due? page e phase).isSome := by
  cases due : host.due? page e phase with
  | none =>
    rw [follow_of_not_due due]
    exact ⟨fun member => (other ((phases_follow rest e).subset member)).elim, nofun⟩
  | some document =>
    rw [follow, due]
    dsimp only
    split <;> simp [attempt]

theorem applicationStart_mem_follow :
    .applicationStart ∈ (host.follow page Phase.all e).1.map (·.phase) ↔
      host.events.isSome ∧ e.startup.started = false := by
  refine (mem_follow_cons (by decide)).trans ?_
  exact isSome_due?_applicationStart host page e

theorem due_of_mem_follow {a : Attempt} (phases : List Phase) (e : Exchange)
    (member : a ∈ (host.follow page phases e).1) :
    ∃ e', host.due? page e' a.phase = some a.document ∧ a.start = host.machine e' := by
  fun_induction follow host page phases e with
  | case1 e => cases member
  | case2 phase rest e due ih => exact ih member
  | case3 phase rest e document due b ok ih =>
    rcases List.mem_cons.mp member with rfl | member
    · exact ⟨e, due, rfl⟩
    · exact ih member
  | case4 phase rest e document due b _ =>
    rw [List.mem_singleton.mp member]
    exact ⟨e, due, rfl⟩

theorem startup_follow :
    (host.follow page Phase.all e).2.startup =
      if host.events.isSome then e.startup.start.2 else e.startup := by
  have others : Phase.applicationStart ∉ [Phase.sessionStart, Phase.page] := by decide
  have iff := isSome_due?_applicationStart host page e
  cases due : host.due? page e .applicationStart with
  | none =>
    rw [Phase.all, follow_of_not_due due, startup_follow_of_notMem _ _ others]
    split
    · next events =>
      have started : e.startup.started = true := by
        rw [due] at iff
        simpa [events] using iff
      exact (Startup.start_of_started started).symm
    · rfl
  | some document =>
    rw [due] at iff
    rw [if_pos (iff.mp rfl).1, Phase.all, follow, due]
    dsimp only
    split
    · rw [startup_follow_of_notMem _ _ others]
      rfl
    · rfl

theorem runEvent_eq {document : Document} {name : String} (event : phase.event? = some name) :
    host.runEvent document name e =
      ((host.attempt e phase document).result.map fun _ => ⟨⟩,
        { e with
          site := (host.attempt e phase document).ends.2.site
          control := (host.attempt e phase document).ends.2.control }) := by
  have script : phase.script document = document.handle name >>= fun _ => pure none := by
    rw [Phase.script, event]
  obtain ⟨result, m, ran⟩ : ∃ result m,
      (document.handle name).exec (host.machine e) = (result, m) := ⟨_, _, rfl⟩
  have ends : (host.attempt e phase document).ends =
      (result.map fun _ => none, m) := by
    rw [Attempt.ends, attempt, script, Run.exec_bind, ran]
    cases result <;> rfl
  change host.runScript document (document.handle name) e = _
  rw [Attempt.result, ends, host.runScript_eq ran]
  cases result <;> rfl

theorem verdict_cons (a : Attempt) {log : List Attempt} (more : log ≠ []) :
    Attempt.verdict (a :: log) = Attempt.verdict log := by
  rw [Attempt.verdict, Attempt.verdict, List.getLast?_cons, List.getLast?_eq_some_getLast more]
  rfl

theorem follow_ne_nil {phases : List Phase} (page_mem : .page ∈ phases) (e : Exchange) :
    (host.follow page phases e).1 ≠ [] := by
  fun_induction follow host page phases e with
  | case1 e => cases page_mem
  | case2 phase rest e due ih =>
    rcases List.mem_cons.mp page_mem with rfl | page_mem
    · cases due
    · exact ih page_mem
  | case3 phase rest e document due a ok ih => exact List.cons_ne_nil a _
  | case4 phase rest e document due a failed => exact List.cons_ne_nil a _

variable (host page) in
def Tells (act : Serve (Option Halt)) (phases : List Phase) : Prop :=
  ∀ e, act e = (Attempt.verdict (host.follow page phases e).1, (host.follow page phases e).2)

theorem follow_page (e : Exchange) :
    host.follow page [.page] e =
      ([host.attempt e .page page], (host.attempt e .page page).leave e) := by
  have due : host.due? page e .page = some page := rfl
  rw [follow, due]
  dsimp only
  split <;> rfl

theorem tells_page : host.Tells page (host.runScript page page.render) [.page] := by
  intro e
  have ran : host.runScript page page.render e =
      ((host.attempt e .page page).result, (host.attempt e .page page).leave e) :=
    host.runScript_eq rfl
  rw [ran, follow_page, Attempt.verdict_singleton]

theorem Tells.ahead {act : Serve Unit} {next : Serve (Option Halt)}
    (later : host.Tells page next rest) (page_mem : .page ∈ rest)
    (runs : ∀ e, act e = match host.due? page e phase with
      | none => (.ok ⟨⟩, e)
      | some document =>
        ((host.attempt e phase document).result.map fun _ => ⟨⟩,
          (host.attempt e phase document).leave e)) :
    host.Tells page (act >>= fun _ => next) (phase :: rest) := by
  intro e
  rw [Serve.run_bind, runs]
  cases due : host.due? page e phase with
  | none =>
    rw [follow_of_not_due due]
    exact later e
  | some document =>
    cases ok : (host.attempt e phase document).ends.1 with
    | ok halt =>
      have result : (host.attempt e phase document).result = .ok halt := by
        rw [Attempt.result, ok]
        rfl
      rw [follow_of_ok due (by rw [ok]; rfl), verdict_cons _ (follow_ne_nil page_mem _), ← later]
      dsimp only
      rw [result]
      rfl
    | error stop =>
      obtain ⟨failure, result⟩ : ∃ failure,
          (host.attempt e phase document).result = .error failure := by
        rw [Attempt.result, ok]
        exact ⟨_, rfl⟩
      rw [follow_of_error due (by rw [ok]; rfl), Attempt.verdict_singleton]
      dsimp only
      rw [result]
      rfl

variable (host) in
def startApplication (events : Document) : Serve Unit := do
  let (due, startup) := (← get).startup.start
  modify fun exchange => { exchange with startup }
  if due then host.runEvent events "application_onstart"

variable (host) in
def startSession (events : Document) : Serve Unit := do
  if (← get).site.session.any (·.isNew) then host.runEvent events "session_onstart"

theorem tells_serve : host.Tells page (host.serve page) Phase.all := by
  cases declared : host.events with
  | none =>
    have serve : host.serve page = host.runScript page page.render := by
      rw [Host.serve, runStart, declared]
      rfl
    intro e
    rw [Phase.all, serve, follow_of_not_due, follow_of_not_due]
    · exact tells_page e
    · rw [due?, declared]; rfl
    · rw [due?, declared]; rfl
  | some events =>
    have serve : host.serve page = host.startApplication events >>= fun _ =>
        host.startSession events >>= fun _ => host.runScript page page.render := by
      rw [Host.serve, runStart, declared]
      simp only [startApplication, startSession, bind_assoc]
      refine bind_congr fun x => bind_congr fun _ => ?_
      cases x.startup.start.1 <;> simp
    rw [serve]
    refine .ahead (.ahead tells_page (by decide) fun e => ?_) (by decide) fun e => ?_
    · have due : host.due? page e .sessionStart =
          if e.site.session.any (·.isNew) then some events else none := by
        rw [due?, declared]
        cases e.site.session.any (·.isNew) <;> rfl
      change (if _ then _ else _ : Serve Unit) e = _
      rw [due]
      split
      · exact runEvent_eq rfl
      · rfl
    · have due : host.due? page e .applicationStart =
          if e.startup.started then none else some events := by
        rw [due?, declared]
        cases e.startup.started <;> rfl
      change (if e.startup.start.1 then _ else _ : Serve Unit)
        { e with startup := e.startup.start.2 } = _
      rw [due]
      cases started : e.startup.started with
      | true =>
        have idle : e.startup.start.1 = false := by
          rw [Startup.start, started]
          rfl
        rw [idle, Startup.start_of_started started]
        rfl
      | false =>
        have pending : e.startup.start.1 = true := by
          rw [Startup.start, started]
          rfl
        rw [pending]
        exact runEvent_eq (e := { e with startup := e.startup.start.2 }) rfl

end Host
end ServerScript
