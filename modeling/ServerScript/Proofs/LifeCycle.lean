import ServerScript.Proofs.HostHistory

/-! The start and the end of an application over any use of its registry and of its host. Each is
run at most once, and the end only after the start. A start counts however it ended: the end is run
after one that failed as well. -/
namespace ServerScript

/-- A call of the registry, and whether the handler that it is given succeeds if it is run. -/
inductive LifeCall where
  | start (succeeds : Bool)
  | finish (succeeds : Bool)
  deriving DecidableEq

namespace LifeCall

def isFinish : LifeCall → Bool
  | start _ => false
  | finish _ => true

def first : List LifeCall → List LifeCall
  | [] => []
  | .finish _ :: rest => first rest
  | .start ok :: rest => .start ok :: (rest.find? (·.isFinish)).toList

/-- At most one start, and behind it at most one end. -/
def Ordered (calls : List LifeCall) : Prop := ∃ ok ok', calls <+: [.start ok, .finish ok']

/-- At most one end, and that behind a start which succeeded. -/
structure EndFollowsStart (calls : List LifeCall) : Prop where
  once : (calls.filter (·.isFinish)).length ≤ 1
  started : ∀ before ok behind, calls = before ++ .finish ok :: behind → .start true ∈ before

theorem first_cases (calls : List LifeCall) :
    first calls = [] ∨ (∃ ok, first calls = [.start ok]) ∨
      ∃ ok ok', first calls = [.start ok, .finish ok'] := by
  induction calls with
  | nil => exact .inl rfl
  | cons call rest ih =>
    cases call with
    | finish _ => exact ih
    | start ok =>
      rw [first]
      cases found : rest.find? (·.isFinish) with
      | none => exact .inr (.inl ⟨ok, rfl⟩)
      | some call =>
        cases call with
        | start _ => cases List.find?_some found
        | finish ok' => exact .inr (.inr ⟨ok, ok', rfl⟩)

theorem ordered_first (calls : List LifeCall) : Ordered (first calls) := by
  rcases first_cases calls with none | ⟨ok, one⟩ | ⟨ok, ok', both⟩
  · exact ⟨true, true, none ▸ List.nil_prefix⟩
  · exact ⟨ok, true, by simp [one]⟩
  · exact ⟨ok, ok', both ▸ List.prefix_rfl⟩

theorem not_endFollowsStart (ok : Bool) : ¬EndFollowsStart [.start false, .finish ok] := by
  rintro ⟨-, started⟩
  cases started [.start false] ok [] rfl with
  | tail _ member => cases member

theorem endFollowsStart_first (calls : List LifeCall) :
    EndFollowsStart (first calls) ↔ ∀ ok, first calls ≠ [.start false, .finish ok] := by
  refine ⟨fun follows ok same => not_endFollowsStart ok (same ▸ follows), fun succeeded => ?_⟩
  rcases first_cases calls with none | ⟨ok, one⟩ | ⟨ok, ok', both⟩
  · exact ⟨by simp [none], by simp [none]⟩
  · refine ⟨by simp [one, isFinish], fun before ok behind same => ?_⟩
    rw [one] at same
    rcases before with _ | ⟨_, _ | ⟨_, _⟩⟩ <;> cases same
  · refine ⟨by simp [both, isFinish], fun before ok behind same => ?_⟩
    rw [both] at same
    rcases before with _ | ⟨_, _ | ⟨_, _ | ⟨_, _⟩⟩⟩ <;> cases same
    cases ok with
    | true => exact List.mem_cons_self
    | false => exact absurd both (succeeded ok')

end LifeCall

namespace Startup

def next (s : Startup) : LifeCall → Bool × Startup
  | .start _ => s.start
  | .finish _ => s.finish

def after (s : Startup) (calls : List LifeCall) : Startup :=
  calls.foldl (fun s call => (s.next call).2) s

def ran (s : Startup) : List LifeCall → List LifeCall
  | [] => []
  | call :: rest =>
    if (s.next call).1 then call :: (s.next call).2.ran rest else (s.next call).2.ran rest

theorem ran_append (s : Startup) (calls others : List LifeCall) :
    s.ran (calls ++ others) = s.ran calls ++ (s.after calls).ran others := by
  induction calls generalizing s with
  | nil => rfl
  | cons call rest ih =>
    simp only [List.cons_append, ran, ih]
    split <;> rfl

theorem ran_of_ended (calls : List LifeCall) : ran ⟨true, true⟩ calls = [] := by
  induction calls with
  | nil => rfl
  | cons call rest ih => cases call <;> exact ih

theorem ran_of_started (calls : List LifeCall) :
    ran ⟨true, false⟩ calls = (calls.find? (·.isFinish)).toList := by
  induction calls with
  | nil => rfl
  | cons call rest ih =>
    cases call with
    | start ok => exact ih
    | finish ok => exact congrArg (LifeCall.finish ok :: ·) (ran_of_ended rest)

theorem ran_new (calls : List LifeCall) : ran {} calls = LifeCall.first calls := by
  induction calls with
  | nil => rfl
  | cons call rest ih =>
    cases call with
    | start ok => exact congrArg (LifeCall.start ok :: ·) (ran_of_started rest)
    | finish ok => exact ih

theorem ordered_ran_new (calls : List LifeCall) : LifeCall.Ordered (ran {} calls) := by
  rw [ran_new]
  exact LifeCall.ordered_first calls

end Startup

def Attempt.life? (a : Attempt) : Option LifeCall :=
  if a.phase = .applicationStart then some (.start a.ends.1.isOk) else none

/-- What can be asked of a host, with the end of its application. -/
inductive HostCall where
  | step (step : HostStep)
  | shutdown

namespace Host

def call (host : Host) : HostCall → Host
  | .step step => host.step step
  | .shutdown => host.shutdown.2

/-- How the end of the application goes if it is run now, as a document declares it. -/
def ending (host : Host) (events : Document) : Except Stop Unit × Machine :=
  (events.handle "application_onend").exec
    (host.machine { host.exchange {} none with startup := host.startup.finish.2 })

/-- The handlers of the start and the end of the application that a call runs, and whether they
succeed. -/
def handlers (host : Host) : HostCall → List LifeCall
  | .step (.execute page request session) =>
    (Visit.mk host page request session).log.filterMap (·.life?)
  | .step _ => []
  | .shutdown =>
    (host.events.filter fun _ => host.startup.finish.1).toList.map fun events =>
      .finish (host.ending events).1.isOk

def life (host : Host) : List HostCall → List LifeCall
  | [] => []
  | call :: rest => host.handlers call ++ (host.call call).life rest

/-- The calls of the registry that a call makes, with what their handlers would do. -/
def lifeCalls (host : Host) : HostCall → List LifeCall
  | .step (.execute _ request session) =>
    host.events.toList.map fun events => .start
      (host.attempt (host.opening request session) .applicationStart events).ends.1.isOk
  | .step _ => []
  | .shutdown => host.events.toList.map fun events => .finish (host.ending events).1.isOk

def lifeHistory (host : Host) : List HostCall → List LifeCall
  | [] => []
  | call :: rest => host.lifeCalls call ++ (host.call call).lifeHistory rest

variable (host : Host)

theorem shutdown_of_events {events : Document} (declared : host.events = some events) :
    host.shutdown.1 = (if host.startup.finish.1 then
        ((host.ending events).1.mapError
          (failureOf events.source (host.ending events).2.errorRange)).map fun _ => true
      else .ok false) ∧
    host.shutdown.2.startup = host.startup.finish.2 := by
  obtain ⟨result, m, ran⟩ : ∃ result m, host.ending events = (result, m) := ⟨_, _, rfl⟩
  have event : host.runEvent events "application_onend"
      { host.exchange {} none with startup := host.startup.finish.2 } = _ := host.runScript_eq ran
  rw [shutdown, declared, ran]
  dsimp only
  rw [event]
  cases host.startup.finish.1 with
  | false => exact ⟨rfl, rfl⟩
  | true =>
    rcases result with (e | f | _) | _ <;> exact ⟨rfl, rfl⟩

theorem shutdown_of_undeclared (undeclared : host.events = none) :
    host.shutdown = (.ok false, host) := by
  rw [shutdown, undeclared]

theorem shutdown_answer :
    (host.shutdown.1 = .ok false ↔ host.handlers .shutdown = []) ∧
    (host.shutdown.1 = .ok true ↔ host.handlers .shutdown = [.finish true]) ∧
    (host.shutdown.1.isOk = false ↔ host.handlers .shutdown = [.finish false]) := by
  cases declared : host.events with
  | none => simp [host.shutdown_of_undeclared declared, handlers, declared, Except.isOk,
      Except.toBool]
  | some events =>
    rw [(host.shutdown_of_events declared).1, handlers, declared]
    cases host.startup.finish.1 with
    | false => simp [Except.isOk, Except.toBool]
    | true =>
      cases ended : (host.ending events).1 <;>
        simp [Except.map, Except.mapError, Except.isOk, Except.toBool, ended]

theorem life_of_later {page : Document} {phases : List Phase} (later : .applicationStart ∉ phases)
    (e : Exchange) : (host.follow page phases e).1.filterMap (·.life?) = [] := by
  refine List.filterMap_eq_nil_iff.mpr fun a member => if_neg fun start => later ?_
  rw [← start]
  exact (phases_follow phases e).subset (List.mem_map_of_mem member)

theorem handlers_execute (page : Document) (request : RequestData) (session : Option Session) :
    host.handlers (.step (.execute page request session)) =
      host.startup.ran (host.lifeCalls (.step (.execute page request session))) := by
  have others : Phase.applicationStart ∉ [Phase.sessionStart, Phase.page] := by decide
  have due : host.due? page (host.opening request session) .applicationStart =
      host.events.filter fun _ => !host.startup.started := rfl
  change (host.follow page Phase.all _).1.filterMap _ = _
  rw [lifeCalls]
  cases declared : host.events with
  | none =>
    rw [declared] at due
    rw [Phase.all, follow_of_not_due due, host.life_of_later others]
    rfl
  | some events =>
    let attempt := host.attempt (host.opening request session) .applicationStart events
    have started? : host.startup.ran [.start attempt.ends.1.isOk] =
        if host.startup.started then [] else [.start attempt.ends.1.isOk] := by
      cases started : host.startup.started <;>
        simp [Startup.ran, Startup.next, Startup.start, started]
    change _ = host.startup.ran [.start attempt.ends.1.isOk]
    rw [declared] at due
    rw [started?]
    cases started : host.startup.started with
    | true =>
      rw [started] at due
      rw [Phase.all, follow_of_not_due due, host.life_of_later others]
      rfl
    | false =>
      rw [started] at due
      have life : attempt.life? = some (.start attempt.ends.1.isOk) := rfl
      cases ok : attempt.ends.1.isOk with
      | false => rw [Phase.all, follow_of_error due ok, List.filterMap_cons, life, ok]; rfl
      | true =>
        rw [Phase.all, follow_of_ok due ok, List.filterMap_cons, life, ok,
          host.life_of_later others]
        rfl

theorem handlers_eq (call : HostCall) :
    host.handlers call = host.startup.ran (host.lifeCalls call) := by
  cases call with
  | step step =>
    cases step with
    | execute page request session => exact host.handlers_execute page request session
    | setGlobal events => rfl
    | useStore call => rfl
  | shutdown =>
    rw [handlers, lifeCalls]
    cases host.events with
    | none => rfl
    | some events =>
      cases due : host.startup.finish.1 <;> simp [Startup.ran, Startup.next, due]

theorem startup_call (call : HostCall) :
    (host.call call).startup = host.startup.after (host.lifeCalls call) := by
  cases call with
  | step step =>
    cases step with
    | execute page request session =>
      have startup : (Visit.mk host page request session).last.startup = _ := startup_follow
      change (Visit.mk host page request session).after.startup = _
      rw [Visit.after_eq, conclude, startup, lifeCalls]
      cases host.events <;> rfl
    | setGlobal events => rfl
    | useStore call => rfl
  | shutdown =>
    rw [call, lifeCalls]
    cases declared : host.events with
    | none => rw [host.shutdown_of_undeclared declared]; rfl
    | some events => exact (host.shutdown_of_events declared).2

theorem life_eq (calls : List HostCall) :
    host.life calls = host.startup.ran (host.lifeHistory calls) := by
  induction calls generalizing host with
  | nil => rfl
  | cons call rest ih =>
    rw [life, lifeHistory, Startup.ran_append, ← handlers_eq, ← startup_call, ih]

end Host

/-- The life of an application. Over any calls of its registry the first start is run and then the
first end behind it, and nothing else. Over any history of its host, while requests are served, its
events are replaced and it is shut down, the handlers that are run are those that the registry runs
for the calls that the host makes of it: at most one start, and behind it at most one end. So the
end follows a start that succeeded unless the first start fails and there is an end behind it, which
is run then all the same. What a shutdown hands back tells which of this it did. -/
theorem end_follows_start (config : Config) (natives : List Native) (clock : ClockReading)
    (calls : List LifeCall) (history : List HostCall) :
    let host : Host := { config, natives, clock }
    (Startup.ran {} calls = LifeCall.first calls ∧ LifeCall.Ordered (Startup.ran {} calls) ∧
      (LifeCall.EndFollowsStart (Startup.ran {} calls) ↔
        ∀ ok, LifeCall.first calls ≠ [.start false, .finish ok])) ∧
    (host.life history = Startup.ran {} (host.lifeHistory history) ∧
      LifeCall.Ordered (host.life history) ∧
      (LifeCall.EndFollowsStart (host.life history) ↔
        ∀ ok, LifeCall.first (host.lifeHistory history) ≠ [.start false, .finish ok])) ∧
    ∀ host : Host,
      (host.shutdown.1 = .ok false ↔ host.handlers .shutdown = []) ∧
      (host.shutdown.1 = .ok true ↔ host.handlers .shutdown = [.finish true]) ∧
      (host.shutdown.1.isOk = false ↔ host.handlers .shutdown = [.finish false]) := by
  intro host
  have life := host.life_eq history
  refine ⟨⟨Startup.ran_new calls, ?_, ?_⟩, ⟨life, ?_, ?_⟩, Host.shutdown_answer⟩
  · exact Startup.ordered_ran_new calls
  · rw [Startup.ran_new]
    exact LifeCall.endFollowsStart_first calls
  · rw [life]
    exact Startup.ordered_ran_new _
  · rw [life, Startup.ran_new]
    exact LifeCall.endFollowsStart_first _

/-- `Sub Application_OnStart`, whose body calls the missing `boom`, and an empty
`Sub Application_OnEnd`. -/
def Document.failingStart : Document :=
  .ofProgram [
    ⟨.procedure ⟨⟨"application_onstart"⟩, .sub, .everyone, false, [],
      [⟨.call (.call (.ident ⟨"boom"⟩) []), {}⟩]⟩, {}⟩,
    ⟨.procedure ⟨⟨"application_onend"⟩, .sub, .everyone, false, [], []⟩, {}⟩]

def HostCall.failingStart : List HostCall :=
  [.step (.setGlobal .failingStart), .step (.execute {} {} none), .shutdown]

/-- The end is run after a start that failed, by the registry and by a host. -/
theorem end_after_failed_start :
    Startup.ran {} [.start false, .finish true] = [.start false, .finish true] ∧
    ({} : Host).life HostCall.failingStart = [.start false, .finish true] ∧
    ¬LifeCall.EndFollowsStart [.start false, .finish true] := by
  refine ⟨rfl, ?_, LifeCall.not_endFollowsStart true⟩
  decide +kernel

end ServerScript
