import ServerScript.Proofs.Attempts

/-! A host over any sequence of requests. The start of the application is attempted once in the life
of a host. A fault in any script of a request, however deep, ends the request and shows in its
outcome, and the lock of the application is given back by then. -/
namespace ServerScript

/-- What can be asked of a host and its application from outside. -/
inductive HostStep where
  | execute (page : Document) (request : RequestData) (session : Option Session)
  | setGlobal (events : Document)
  | useStore (call : StoreCall)

structure Visit where
  host : Host
  page : Document
  request : RequestData
  session : Option Session

namespace Visit

variable (v : Visit)

def log : List Attempt := (v.host.follow v.page Phase.all (v.host.opening v.request v.session)).1

def phases : List Phase := v.log.map (·.phase)

def last : Exchange := (v.host.follow v.page Phase.all (v.host.opening v.request v.session)).2

def outcome : Outcome := (v.host.execute v.page v.request v.session).1

def after : Host := (v.host.execute v.page v.request v.session).2

theorem serve_eq :
    v.host.serve v.page (v.host.opening v.request v.session) = (Attempt.verdict v.log, v.last) :=
  Host.tells_serve _

theorem outcome_eq : v.outcome = v.host.outcome (Attempt.verdict v.log, v.last) := by
  rw [← serve_eq]
  rfl

theorem after_eq : v.after = v.host.conclude v.last := by
  rw [after, Host.execute_eq, serve_eq]

theorem exists_last : ∃ a, v.log.getLast? = some a ∧
    v.outcome.halt = a.ends.1.toOption.join ∧
    v.outcome.response = a.ends.2.site.response ∧
    v.outcome.error = match a.ends.1 with
      | .ok _ => none
      | .error (.error e) => some (.ofError a.document.source e a.ends.2.errorRange)
      | .error (.fault f) => some (.ofCrash f.message)
      | .error .exhausted => some (.ofCrash "step bound reached") := by
  have filled : v.log ≠ [] := Host.follow_ne_nil (by decide) _
  have found := List.getLast?_eq_some_getLast filled
  refine ⟨v.log.getLast filled, found, ?_⟩
  have verdict : Attempt.verdict v.log = (v.log.getLast filled).result := by
    rw [Attempt.verdict, found]
  rw [outcome_eq, verdict, Attempt.result]
  refine ⟨?_, congrArg Site.response (Host.site_follow _ _ found), ?_⟩
  · dsimp only [Host.outcome]
    cases (v.log.getLast filled).ends.1 <;> rfl
  · dsimp only [Host.outcome]
    rcases (v.log.getLast filled).ends.1 with (e | f | _) | halt <;> rfl

theorem error_of_fault {a : Attempt} {s s' : Stage} {f : Fault} (member : a ∈ v.log)
    (starts : a.Starts s) (path : Relation.ReflTransGen Stage.Leads s s')
    (faulted : s'.run.1 = .error (.fault f)) : v.outcome.error = some (.ofCrash f.message) := by
  have shown : (Mark.fault f).On s'.run := Run.stop?_eq_some_iff.mpr faulted
  have failed : a.ends.1 = .error (.fault f) :=
    Run.stop?_eq_some_iff.mp (starts.lasts (Stage.lasts path shown))
  obtain ⟨b, last, -, -, error⟩ := v.exists_last
  obtain rfl : a = b := Option.some.inj ((Host.getLast?_follow _ _ member failed).symm.trans last)
  rw [error, failed]

theorem id_eq : v.outcome.id = v.host.nextId := rfl

theorem nextId_after : v.after.nextId = v.outcome.id + 1 := rfl

theorem applicationStart_mem_phases :
    .applicationStart ∈ v.phases ↔ v.host.events.isSome ∧ v.host.startup.started = false :=
  Host.applicationStart_mem_follow

theorem started_after :
    v.after.startup.started = (v.host.startup.started || v.host.events.isSome) := by
  have startup : v.last.startup = _ := Host.startup_follow
  rw [after_eq, Host.conclude]
  dsimp only
  rw [startup]
  split
  · next declared => rw [declared, Bool.or_true]; rfl
  · next undeclared => rw [Bool.eq_false_iff.mpr undeclared, Bool.or_false]; rfl

theorem application_after : ∃ actions, v.after.application =
    (v.host.application.after (StoreCall.ofRequest v.outcome.id actions)).release v.outcome.id := by
  have continues : Serve.Continues (v.host.serve v.page) :=
    .bind v.host.continues_runStart fun _ => v.host.continues_runScript _ v.page.continues_render
  obtain ⟨actions, changed⟩ := (continues (v.host.opening v.request v.session)).site.application
  refine ⟨actions, ?_⟩
  rw [serve_eq] at changed
  rw [after_eq, Host.conclude]
  dsimp only
  rw [changed]
  rfl

end Visit

namespace Host

def step (host : Host) : HostStep → Host
  | .execute page request session => (host.execute page request session).2
  | .setGlobal events => { host with events := some events }
  | .useStore call => { host with application := host.application.next call }

/-- The requests of a history, each with the host that it finds. -/
def visits (host : Host) : List HostStep → List Visit
  | [] => []
  | step :: rest =>
    match step with
    | .execute page request session => ⟨host, page, request, session⟩ :: (host.step step).visits rest
    | _ => (host.step step).visits rest

variable (host : Host)

theorem visits_cons (step : HostStep) (rest : List HostStep) :
    (∃ v : Visit, v.host = host ∧ host.visits (step :: rest) = v :: v.after.visits rest) ∨
    ∃ host' : Host, host'.nextId = host.nextId ∧ host'.startup = host.startup ∧
      host.visits (step :: rest) = host'.visits rest := by
  cases step with
  | execute page request session => exact .inl ⟨⟨host, page, request, session⟩, rfl, rfl⟩
  | setGlobal events => exact .inr ⟨{ host with events := some events }, rfl, rfl, rfl⟩
  | useStore call =>
    exact .inr ⟨{ host with application := host.application.next call }, rfl, rfl, rfl⟩

theorem nextId_le_id (steps : List HostStep) {v : Visit} (member : v ∈ host.visits steps) :
    host.nextId ≤ v.outcome.id := by
  induction steps generalizing host with
  | nil => cases member
  | cons step rest ih =>
    obtain ⟨first, rfl, visits⟩ | ⟨host', nextId, -, visits⟩ := host.visits_cons step rest
    · rw [visits] at member
      rcases List.mem_cons.mp member with rfl | member
      · exact Nat.le_of_eq v.id_eq.symm
      · have later := ih _ member
        rw [first.nextId_after, first.id_eq] at later
        omega
    · rw [visits] at member
      exact nextId ▸ ih host' member

theorem pairwise_id (steps : List HostStep) :
    (host.visits steps).Pairwise fun v w => v.outcome.id < w.outcome.id := by
  induction steps generalizing host with
  | nil => exact .nil
  | cons step rest ih =>
    obtain ⟨v, -, visits⟩ | ⟨host', -, -, visits⟩ := host.visits_cons step rest
    · rw [visits]
      refine .cons (fun w member => ?_) (ih v.after)
      have later := v.after.nextId_le_id rest member
      rw [v.nextId_after] at later
      omega
    · rw [visits]
      exact ih host'

theorem started_iff (steps : List HostStep) {before rest : List Visit} {v : Visit}
    (split : host.visits steps = before ++ v :: rest) :
    v.host.startup.started = true ↔
      host.startup.started = true ∨ ∃ u ∈ before, u.host.events.isSome := by
  induction steps generalizing host before with
  | nil => cases before <;> cases split
  | cons step later ih =>
    obtain ⟨first, rfl, visits⟩ | ⟨host', -, startup, visits⟩ := host.visits_cons step later
    · rw [visits] at split
      cases before with
      | nil =>
        obtain ⟨rfl, -⟩ := List.cons.inj split
        simp
      | cons u before =>
        obtain ⟨rfl, others⟩ := List.cons.inj split
        rw [ih _ others, first.started_after, Bool.or_eq_true, or_assoc]
        simp
    · rw [visits] at split
      rw [ih host' split, startup]

theorem count_applicationStart (steps : List HostStep) :
    ((host.visits steps).flatMap (·.phases)).count .applicationStart ≤
      if host.startup.started then 0 else 1 := by
  induction steps generalizing host with
  | nil => exact Nat.zero_le _
  | cons step rest ih =>
    obtain ⟨v, rfl, visits⟩ | ⟨host', -, startup, visits⟩ := host.visits_cons step rest
    · have once : v.phases.count .applicationStart ≤ 1 := (phases_follow Phase.all _).count_le _
      have others := ih v.after
      rw [visits, List.flatMap_cons, List.count_append]
      rw [v.started_after] at others
      by_cases due : v.host.events.isSome ∧ v.host.startup.started = false
      · rw [due.1, due.2] at others
        rw [due.2]
        simpa using Nat.add_le_add once others
      · have never : v.phases.count .applicationStart = 0 :=
          List.count_eq_zero.mpr (mt v.applicationStart_mem_phases.mp due)
        have same : (v.host.startup.started || v.host.events.isSome) = v.host.startup.started := by
          cases started : v.host.startup.started with
          | true => rfl
          | false => exact Bool.eq_false_iff.mpr fun declared => due ⟨declared, started⟩
        rwa [never, Nat.zero_add, ← same]
    · rw [visits, ← startup]
      exact ih host'

end Host

theorem ApplicationStore.holder_release (s : ApplicationStore) (r : Nat) :
    (s.release r).holder ≠ some r := by
  rw [release]
  split
  · exact (Option.some_ne_none r).symm
  · assumption

theorem ApplicationStore.after_ofRequest {s : ApplicationStore} {r q : Nat}
    (held : s.holder = some r) (other : r ≠ q) (actions : List StoreAction) :
    s.after (StoreCall.ofRequest q actions) = s := by
  induction actions with
  | nil => rfl
  | cons action rest ih =>
    change (s.next ⟨q, action⟩).after (StoreCall.ofRequest q rest) = s
    rw [next_of_foreign held (Ne.symm other), ih]

/-- The history of a host that serves requests, whatever they do and however they end, while its
events are replaced and its application is used from outside. The numbers of requests increase. The
start of the application is attempted at most once: by the first request that finds a document with
events, and ahead of its page. Every request has an outcome, which is the end of its last script,
and a fault at any stage of its scripts is the error of that outcome. The lock of the application is
not held by the request after it, and a lock that is held for somebody else protects the application
from it. -/
theorem host_history (config : Config) (natives : List Native) (clock : ClockReading)
    (steps : List HostStep) :
    let visits := ({ config, natives, clock } : Host).visits steps
    visits.Pairwise (fun v w => v.outcome.id < w.outcome.id) ∧
    (visits.flatMap (·.phases)).count .applicationStart ≤ 1 ∧
    (∀ before v rest, visits = before ++ v :: rest →
      (.applicationStart ∈ v.phases ↔
        v.host.events.isSome ∧ ∀ u ∈ before, u.host.events = none)) ∧
    ∀ v ∈ visits,
      v.phases.Sublist [.applicationStart, .sessionStart, .page] ∧
      (∃ a, v.log.getLast? = some a ∧
        v.outcome.halt = a.ends.1.toOption.join ∧
        v.outcome.response = a.ends.2.site.response ∧
        v.outcome.error = match a.ends.1 with
          | .ok _ => none
          | .error (.error e) => some (.ofError a.document.source e a.ends.2.errorRange)
          | .error (.fault f) => some (.ofCrash f.message)
          | .error .exhausted => some (.ofCrash "step bound reached")) ∧
      (∀ a ∈ v.log, ∀ (s s' : Stage) (f : Fault), a.Starts s →
        Relation.ReflTransGen Stage.Leads s s' → s'.run.1 = .error (.fault f) →
        v.outcome.error = some (.ofCrash f.message)) ∧
      v.after.application.holder ≠ some v.outcome.id ∧
      ∀ r, r ≠ v.outcome.id → v.host.application.holder = some r →
        v.after.application = v.host.application := by
  intro visits
  refine ⟨Host.pairwise_id _ steps, Host.count_applicationStart _ steps,
    fun before v rest split => ?_, fun v _ => ⟨Host.phases_follow _ _, v.exists_last,
      fun a member s s' f starts path => v.error_of_fault member starts path, ?_,
      fun r other held => ?_⟩⟩
  · have started := Host.started_iff _ steps split
    rw [v.applicationStart_mem_phases, ← Bool.not_eq_true, started]
    simp
  · obtain ⟨actions, application⟩ := v.application_after
    rw [application]
    exact ApplicationStore.holder_release _ _
  · obtain ⟨actions, application⟩ := v.application_after
    rw [application, ApplicationStore.after_ofRequest held other]
    refine ApplicationStore.release_of_not_holder _ _ fun own => other ?_
    exact Option.some.inj (held.symm.trans own)

def Native.boom : Native := ⟨"boom", fun _ => .error (.fault (.native "boom"))⟩

/-- `Sub Application_OnStart`, whose body is `On Error Resume Next`, `Application.Lock` and
`boom()`. -/
def Procedure.breakingStart : Procedure :=
  ⟨⟨"application_onstart"⟩, .sub, .everyone, false, [],
    [⟨.onError .resumeNext, {}⟩,
      ⟨.call (.call (.member (.ident ⟨"application"⟩) ⟨"lock"⟩) []), {}⟩,
      ⟨.call (.call (.ident ⟨"boom"⟩) []), {}⟩]⟩

def Document.breakingStart : Document := .ofProgram [⟨.procedure .breakingStart, {}⟩]

def HostStep.threeRequests : List HostStep :=
  [.execute {} {} none, .setGlobal .breakingStart, .execute {} {} none, .execute {} {} none]

def Visit.first : Visit := ⟨{ natives := [.boom] }, {}, {}, none⟩

def Visit.second : Visit :=
  ⟨{ Visit.first.after with events := some .breakingStart }, {}, {}, none⟩

def Visit.third : Visit := ⟨Visit.second.after, {}, {}, none⟩

def Attempt.breaking : Attempt :=
  Visit.second.host.attempt (Visit.second.host.opening {} none) .applicationStart .breakingStart

def Stage.breaking : Stage :=
  ⟨Interpreter.bound, [], .invoke .breakingStart none [],
    ((Interpreter.hoist Document.breakingStart.statements).exec Attempt.breaking.start).2⟩

theorem breaking_start_history :
    ({ natives := [.boom] } : Host).visits HostStep.threeRequests =
      [Visit.first, Visit.second, Visit.third] ∧
    Visit.first.outcome.id < Visit.second.outcome.id ∧
    .applicationStart ∉ Visit.first.phases ∧ .applicationStart ∈ Visit.second.phases ∧
    .applicationStart ∉ Visit.third.phases ∧
    Visit.second.outcome.error = some (.ofCrash "boom") ∧
    Visit.second.after.application.holder ≠ some Visit.second.outcome.id := by
  have visits : ({ natives := [.boom] } : Host).visits HostStep.threeRequests =
      [Visit.first, Visit.second, Visit.third] := rfl
  obtain ⟨increase, -, start, each⟩ :=
    host_history {} [.boom] {} HostStep.threeRequests
  rw [visits] at increase start each
  obtain ⟨-, -, faults, holder, -⟩ := each .second (by simp)
  refine ⟨visits, (List.pairwise_cons.mp increase).1 _ (by simp), ?_, ?_, ?_, ?_, holder⟩
  · exact fun attempted => nomatch ((start [] .first _ rfl).mp attempted).1
  · exact (start [.first] .second _ rfl).mpr ⟨rfl, fun u member => by
      rw [List.mem_singleton.mp member]; rfl⟩
  · intro attempted
    have none := ((start [.first, .second] .third _ rfl).mp attempted).2 .second (by simp)
    cases none
  · have failed : Attempt.breaking.ends.1.isOk = false := by decide +kernel
    have due : Visit.second.host.due? Visit.second.page (Visit.second.host.opening {} none)
        .applicationStart = some .breakingStart := rfl
    have log : Visit.second.log = [.breaking] :=
      congrArg Prod.fst (Host.follow_of_error due failed)
    have starts : Attempt.breaking.Starts .breaking := .call rfl rfl
    have stopped : Run.stop? Stage.breaking.run.1 = some (.fault (.native "boom")) := by
      decide +kernel
    exact faults .breaking (log ▸ List.mem_singleton_self _) _ _ (.native "boom") starts .refl
      (Run.stop?_eq_some_iff.mp stopped)

end ServerScript
