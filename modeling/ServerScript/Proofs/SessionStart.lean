import ServerScript.Proofs.HostHistory
import ServerScript.Proofs.CallTarget

/-! The start of a session. A session is new to one request only, so its start is attempted for that
request or never. It is lost if the start of the application is due for the same request and
fails. -/
namespace ServerScript

/-- A state outside of all procedures, with the built-in constants and no others. -/
structure Machine.TopLevel (m : Machine) : Prop where
  frames : m.scopes.frames = []
  constants : m.scopes.constants = builtinConstants
  me : m.scopes.me = none

theorem Host.topLevel_machine (host : Host) (e : Exchange) : (host.machine e).TopLevel :=
  ⟨rfl, rfl, rfl⟩

namespace StmtKind

def declaration : StmtKind → Except EvalError (Option (Name × Callable))
  | .procedure decl => .ok (some (decl.name, .procedure decl))
  | .classDef decl => (ClassDef.ofDecl decl).map fun cls => some (decl.ident, .cls cls)
  | _ => .ok none

/-- What a statement declares can be defined outside of procedures. -/
def Loads (kind : StmtKind) : Prop :=
  match kind.declaration with
  | .error _ => False
  | .ok found => ∀ d ∈ found, lookupName d.1 builtinConstants = none

def define (kind : StmtKind) : Run Unit := do
  match ← Run.ofExcept kind.declaration with
  | some (name, target) => Interpreter.defineCallable name target
  | none => return

end StmtKind

/-- A document declares a procedure: all of its declarations can be defined, and none that comes
later takes the name. -/
structure Document.Declares (document : Document) (decl : Procedure) : Prop where
  loads : ∀ stmt ∈ document.statements, stmt.kind.Loads
  last : ∃ before stmt rest, document.statements = before ++ stmt :: rest ∧
    stmt.kind = .procedure decl ∧
    ∀ other ∈ rest, ∀ target, other.kind.declaration ≠ .ok (some (decl.name, target))

namespace Interpreter

variable {m : Machine}

theorem hoist_eq (block : Block) : hoist block = block.forM fun stmt => stmt.kind.define := by
  rw [hoist]
  congr 1
  funext stmt
  cases kind : stmt.kind with
  | classDef decl =>
    dsimp only [StmtKind.define, StmtKind.declaration, defineClass]
    cases ClassDef.ofDecl decl <;> rfl
  | _ => rfl

theorem exec_defineCallable (top : m.TopLevel) {name : Name}
    (free : lookupName name builtinConstants = none) (target : Callable) :
    (defineCallable name target).exec m = (.ok ⟨⟩, { m with
      heap := m.heap.freshView.1
      scopes := m.scopes.setGlobal name (.callable m.heap.freshView.2 target) }) := by
  have defined : m.scopes.define name (.callable m.heap.freshView.2 target) =
      .ok (m.scopes.setGlobal name (.callable m.heap.freshView.2 target)) := by
    rw [Scopes.define, top.frames]
    dsimp only
    rw [top.constants, free]
    rfl
  exact @exec_modifyScopes { m with heap := m.heap.freshView.1 }
    (·.define name (.callable m.heap.freshView.2 target)) _ defined

theorem exec_declaration {kind : StmtKind} (loads : kind.Loads) (top : m.TopLevel) :
    ∃ m', kind.define.exec m = (.ok ⟨⟩, m') ∧ m'.TopLevel ∧
      (∀ name, (∀ target, kind.declaration ≠ .ok (some (name, target))) →
        m'.scopes.global? name = m.scopes.global? name) ∧
      ∀ name target, kind.declaration = .ok (some (name, target)) →
        ∃ id, m'.scopes.global? name = some (.callable id target) := by
  rw [StmtKind.Loads] at loads
  cases found : kind.declaration with
  | error e =>
    rw [found] at loads
    exact loads.elim
  | ok found? =>
    rw [found] at loads
    cases found? with
    | none =>
      refine ⟨m, ?_, top, fun _ _ => rfl, nofun⟩
      rw [StmtKind.define, found]
      rfl
    | some d =>
      obtain ⟨name, target⟩ := d
      have free : lookupName name builtinConstants = none := loads (name, target) rfl
      refine ⟨{ m with
          heap := m.heap.freshView.1
          scopes := m.scopes.setGlobal name (.callable m.heap.freshView.2 target) }, ?_,
        ⟨top.frames, top.constants, top.me⟩, fun other differ => ?_, fun name' target' same => ?_⟩
      · rw [StmtKind.define, found]
        exact exec_defineCallable top free target
      · rw [Scopes.global?_setGlobal, if_neg]
        rintro rfl
        exact differ target rfl
      · obtain ⟨rfl, rfl⟩ := Prod.mk.inj (Option.some.inj (Except.ok.inj same))
        exact ⟨_, (Scopes.global?_setGlobal ..).trans (if_pos rfl)⟩

theorem exec_hoist {block : Block} (loads : ∀ stmt ∈ block, stmt.kind.Loads) (top : m.TopLevel) :
    ∃ m', (hoist block).exec m = (.ok ⟨⟩, m') ∧ m'.TopLevel ∧
      ∀ name, (∀ stmt ∈ block, ∀ target, stmt.kind.declaration ≠ .ok (some (name, target))) →
        m'.scopes.global? name = m.scopes.global? name := by
  rw [hoist_eq]
  induction block generalizing m with
  | nil => exact ⟨m, rfl, top, fun _ _ => rfl⟩
  | cons stmt rest ih =>
    obtain ⟨first, others⟩ := List.forall_mem_cons.mp loads
    obtain ⟨m₁, defined, top₁, kept, -⟩ := exec_declaration first top
    obtain ⟨m', hoisted, top', kept'⟩ := ih others top₁
    refine ⟨m', ?_, top', fun name differ => ?_⟩
    · rw [List.forM_eq_forM, List.forM_cons, Run.exec_bind_ok defined]
      exact hoisted
    · obtain ⟨differ, others⟩ := List.forall_mem_cons.mp differ
      rw [kept' name others, kept name differ]

end Interpreter

theorem Document.Declares.exists_loaded {document : Document} {decl : Procedure} {m : Machine}
    (declares : document.Declares decl) (top : m.TopLevel) :
    ∃ m₁ id, (Interpreter.hoist document.statements).exec m = (.ok ⟨⟩, m₁) ∧
      m₁.scopes.lookup m₁.heap decl.name = some (.callable id (.procedure decl)) := by
  obtain ⟨loads, before, stmt, rest, statements, kind, last⟩ := declares
  rw [statements] at loads ⊢
  obtain ⟨first, others⟩ := List.forall_mem_append.mp loads
  obtain ⟨here, others⟩ := List.forall_mem_cons.mp others
  obtain ⟨m₁, hoisted, top₁, -⟩ := Interpreter.exec_hoist first top
  obtain ⟨m₂, defined, top₂, -, found⟩ := Interpreter.exec_declaration here top₁
  obtain ⟨m₃, hoisted', top₃, kept⟩ := Interpreter.exec_hoist others top₂
  rw [kind] at found
  obtain ⟨id, found⟩ := found _ _ rfl
  rw [← kept _ last] at found
  refine ⟨m₃, id, ?_, ?_⟩
  · rw [Interpreter.hoist_eq] at hoisted hoisted' ⊢
    rw [List.forM_eq_forM] at *
    rw [List.forM_append, Run.exec_bind_ok hoisted, List.forM_cons, Run.exec_bind_ok defined]
    exact hoisted'
  · have free : lookupName decl.name builtinConstants = none := by
      rw [StmtKind.Loads, kind] at here
      exact here _ rfl
    rw [Scopes.lookup, Scopes.resolve, Scopes.constant?, Scopes.frameVariable?, Scopes.member?,
      top₃.frames, top₃.constants, top₃.me, found]
    dsimp only [List.findSome?_nil]
    rw [free]

theorem Phase.continues_script (document : Document) (phase : Phase) :
    (phase.script document).Continues := by
  intro m
  rw [script]
  split
  · next name _ =>
    have handled := document.continues_handle name m
    rw [Run.exec_bind]
    split <;> exact handled
  · exact document.continues_render m

def Attempt.failsStart (a : Attempt) : Bool := a.phase = .applicationStart && !a.ends.1.isOk

namespace Host

variable {host : Host} {page : Document} {e : Exchange} {isNew : Bool}

variable (host) in
theorem isNew_leave (e : Exchange) (phase : Phase) (document : Document) :
    ((host.attempt e phase document).leave e).site.session.map (·.isNew) =
      e.site.session.map (·.isNew) :=
  (phase.continues_script document (host.machine e)).site.session

theorem isNew_follow (phases : List Phase) (e : Exchange) :
    (host.follow page phases e).2.site.session.map (·.isNew) = e.site.session.map (·.isNew) := by
  fun_induction follow host page phases e with
  | case1 e => rfl
  | case2 phase rest e due ih => exact ih
  | case3 phase rest e document due a ok ih => exact ih.trans (host.isNew_leave e phase document)
  | case4 phase rest e document due a failed => exact host.isNew_leave e phase document

theorem isSome_due?_sessionStart (session : e.site.session.map (·.isNew) = some isNew) :
    (host.due? page e .sessionStart).isSome ↔ host.events.isSome ∧ isNew := by
  obtain ⟨s, opened, rfl⟩ := Option.map_eq_some_iff.mp session
  rw [due?, opened]
  cases host.events <;> simp

theorem sessionStart_mem_follow (session : e.site.session.map (·.isNew) = some isNew) :
    .sessionStart ∈ (host.follow page Phase.all e).1.map (·.phase) ↔
      host.events.isSome ∧ isNew ∧
        (host.follow page Phase.all e).1.any (·.failsStart) = false := by
  have last : Phase.sessionStart ∉ [Phase.page] := by decide
  have noStart : ∀ e, (host.follow page [.sessionStart, .page] e).1.any (·.failsStart) = false := by
    refine fun e => List.any_eq_false.mpr fun a member fails => ?_
    have first : a.phase = .applicationStart := of_decide_eq_true (Bool.and_eq_true_iff.mp fails).1
    have among := (phases_follow _ e).subset (List.mem_map_of_mem member)
    simp [first] at among
  cases due : host.due? page e .applicationStart with
  | none =>
    rw [Phase.all, follow_of_not_due due, noStart, mem_follow_cons last,
      isSome_due?_sessionStart session]
    simp
  | some document =>
    cases ok : (host.attempt e .applicationStart document).ends.1.isOk with
    | true =>
      have session := (host.isNew_leave e .applicationStart document).trans session
      have succeeds : (host.attempt e .applicationStart document).failsStart = false :=
        congrArg (!·) ok
      rw [Phase.all, follow_of_ok due ok, List.map_cons, List.any_cons, noStart, succeeds,
        List.mem_cons, mem_follow_cons last, isSome_due?_sessionStart session]
      simp [attempt]
    | false =>
      have fails : (host.attempt e .applicationStart document).failsStart = true :=
        congrArg (!·) ok
      rw [Phase.all, follow_of_error due ok, List.any_cons, fails]
      simp [attempt]

end Host

namespace Visit

variable (v : Visit)

/-- A request opens a session if it has none or a new one. -/
def opensSession : Bool := v.session.all (·.isNew)

/-- The start of the application is due for the request and fails. -/
def startFails : Bool := v.log.any (·.failsStart)

theorem isNew_opening :
    (v.host.opening v.request v.session).site.session.map (·.isNew) = some v.opensSession := by
  rw [opensSession]
  cases v.session <;> rfl

theorem sessionStart_mem_phases :
    .sessionStart ∈ v.phases ↔ v.host.events.isSome ∧ v.opensSession ∧ v.startFails = false :=
  Host.sessionStart_mem_follow v.isNew_opening

theorem isNew_outcome : v.outcome.session.map (·.isNew) = some false := by
  have kept : v.last.site.session.map (·.isNew) = some v.opensSession :=
    (Host.isNew_follow Phase.all _).trans v.isNew_opening
  obtain ⟨s, left, -⟩ := Option.map_eq_some_iff.mp kept
  rw [outcome_eq, Host.outcome, left]
  rfl

/-- Requests that use one session: each one gets what the one before it has handed back. Between
them their hosts may have done anything else. -/
def Threaded : List Visit → Prop := List.IsChain fun v w => w.session = v.outcome.session

variable {v} {rest : List Visit}

theorem Threaded.sessionStart_notMem (threaded : Threaded (v :: rest)) {w : Visit}
    (later : w ∈ rest) : .sessionStart ∉ w.phases := by
  induction rest generalizing v with
  | nil => cases later
  | cons u rest ih =>
    obtain ⟨handed, threaded⟩ := List.isChain_cons_cons.mp threaded
    rcases List.mem_cons.mp later with rfl | later
    · have used := v.isNew_outcome
      obtain ⟨s, back, old⟩ := Option.map_eq_some_iff.mp used
      intro attempted
      have opens := (w.sessionStart_mem_phases.mp attempted).2.1
      rw [opensSession, handed, back, Option.all_some, old] at opens
      cases opens
    · exact ih threaded later

theorem Threaded.count_sessionStart (threaded : Threaded (v :: rest))
    (declared : v.host.events.isSome) (opens : v.opensSession) :
    ((v :: rest).flatMap (·.phases)).count .sessionStart = if v.startFails then 0 else 1 := by
  have later : (rest.flatMap (·.phases)).count .sessionStart = 0 := by
    refine List.count_eq_zero.mpr fun attempted => ?_
    obtain ⟨w, member, attempted⟩ := List.mem_flatMap.mp attempted
    exact threaded.sessionStart_notMem member attempted
  have once : v.phases.count .sessionStart ≤ 1 := (Host.phases_follow Phase.all _).count_le _
  rw [List.flatMap_cons, List.count_append, later, Nat.add_zero]
  have attempted := v.sessionStart_mem_phases
  cases fails : v.startFails with
  | true =>
    refine List.count_eq_zero.mpr fun member => ?_
    have succeeds := (attempted.mp member).2.2
    rw [fails] at succeeds
    cases succeeds
  | false =>
    have member := attempted.mpr ⟨declared, opens, fails⟩
    exact Nat.le_antisymm once (List.count_pos_iff.mpr member)

end Visit

theorem Attempt.starts_session {host : Host} {page events : Document} {e : Exchange} {a : Attempt}
    {decl : Procedure} (phase : a.phase = .sessionStart)
    (due : host.due? page e a.phase = some a.document) (start : a.start = host.machine e)
    (installed : host.events = some events) (declares : events.Declares decl)
    (event : decl.name = Name.ofText "session_onstart") :
    ∃ m, a.Starts ⟨Interpreter.bound, [], .invoke decl none [], m⟩ := by
  obtain rfl : events = a.document := by
    rw [phase, Host.due?, installed] at due
    exact (Option.filter_eq_some_iff.mp due).1 |> Option.some.inj
  obtain ⟨m, id, loaded, found⟩ := declares.exists_loaded (start ▸ host.topLevel_machine e)
  refine ⟨m, ?_⟩
  rw [Attempt.Starts, phase]
  exact .call loaded (event ▸ found)

/-- The start of a session over the requests that use it, whatever they and their hosts do. It is
attempted for the first one of them, where it calls the procedure that the document with the events
declares for it, and never again. If the start of the application is due for the first one as well
and fails, it is not attempted at all. -/
theorem session_start_once {events : Document} {decl : Procedure} {v : Visit} {rest : List Visit}
    (declares : events.Declares decl) (event : decl.name = Name.ofText "session_onstart")
    (installed : v.host.events = some events) (opens : v.opensSession)
    (threaded : Visit.Threaded (v :: rest)) :
    ((v :: rest).flatMap (·.phases)).count .sessionStart = (if v.startFails then 0 else 1) ∧
    ∀ w ∈ v :: rest, ∀ a ∈ w.log, a.phase = .sessionStart →
      w = v ∧ ∃ m, a.Starts ⟨Interpreter.bound, [], .invoke decl none [], m⟩ := by
  refine ⟨threaded.count_sessionStart (by simp [installed]) opens, fun w member a among phase => ?_⟩
  have attempted : Phase.sessionStart ∈ w.phases := phase ▸ List.mem_map_of_mem among
  rcases List.mem_cons.mp member with rfl | later
  · obtain ⟨e, due, start⟩ := Host.due_of_mem_follow _ _ among
    exact ⟨rfl, Attempt.starts_session phase due start installed declares event⟩
  · exact absurd attempted (threaded.sessionStart_notMem later)

def Host.thread (host : Host) (session : Option Session) :
    List (Document × RequestData) → List Visit
  | [] => []
  | (page, request) :: rest =>
    let v : Visit := ⟨host, page, request, session⟩
    v :: v.after.thread v.outcome.session rest

theorem Host.threaded_thread (host : Host) (session : Option Session)
    (requests : List (Document × RequestData)) : Visit.Threaded (host.thread session requests) := by
  induction requests generalizing host session with
  | nil => exact .nil
  | cons first rest ih =>
    cases rest with
    | nil => exact .singleton _
    | cons second rest => exact List.isChain_cons_cons.mpr ⟨rfl, ih _ _⟩

namespace Greeting

/-- `Sub Session_OnStart`, whose body is `Session("greeting") = 1`. -/
def sessionStart : Procedure :=
  ⟨⟨"session_onstart"⟩, .sub, .everyone, false, [],
    [⟨.assign (.call (.ident ⟨"session"⟩) [.literal (.string "greeting")]) (.literal (.integer 1))
      false, {}⟩]⟩

/-- `Sub Application_OnStart` with the given body. -/
def applicationStart (body : Block) : Procedure :=
  ⟨⟨"application_onstart"⟩, .sub, .everyone, false, [], body⟩

/-- `boom()` -/
def boom : Block := [⟨.call (.call (.ident ⟨"boom"⟩) []), {}⟩]

def events (body : Block) : Document :=
  .ofProgram [⟨.procedure (applicationStart body), {}⟩, ⟨.procedure sessionStart, {}⟩]

def visits (body : Block) : List Visit :=
  ({ events := some (events body) } : Host).thread none [({}, {}), ({}, {})]

def first (body : Block) : Visit := ⟨{ events := some (events body) }, {}, {}, none⟩

theorem declares (body : Block) : (events body).Declares sessionStart where
  loads stmt member := by
    have statements : (events body).statements =
        [⟨.procedure (applicationStart body), {}⟩, ⟨.procedure sessionStart, {}⟩] := rfl
    obtain rfl | rfl : stmt = ⟨.procedure (applicationStart body), {}⟩ ∨
        stmt = ⟨.procedure sessionStart, {}⟩ := by simpa [statements] using member
    all_goals
      rintro d ⟨⟩
      rfl
  last := ⟨[⟨.procedure (applicationStart body), {}⟩], _, [], rfl, rfl, nofun⟩

end Greeting

open Greeting in
theorem greeting_set_once :
    (events []).Declares sessionStart ∧ Visit.Threaded (visits []) ∧
      (first []).startFails = false ∧ ((visits []).flatMap (·.phases)).count .sessionStart = 1 := by
  have threaded : Visit.Threaded (visits []) := Host.threaded_thread _ _ _
  have starts : (first []).startFails = false := by decide +kernel
  have once := (@session_start_once (events []) sessionStart (first []) _ (declares []) rfl rfl rfl
    threaded).1
  rw [starts] at once
  exact ⟨declares [], threaded, starts, once⟩

open Greeting in
/-- The first request fails in the start of the application, which calls the missing `boom`. The
session is not started for it, and not for the second one, which gets the session back. -/
theorem greeting_never_set :
    (events boom).Declares sessionStart ∧ Visit.Threaded (visits boom) ∧
      ((visits boom).flatMap (·.phases)).count .sessionStart = 0 :=
  ⟨declares boom, Host.threaded_thread _ _ _, by decide +kernel⟩

end ServerScript
