import ServerScript.Host.Config
import ServerScript.Host.Render
import ServerScript.Host.Report
import ServerScript.Host.Startup

/-! A host serves requests one after another. Every request gets objects of its own; the
application, its life cycle and the functions of the embedding program are shared. -/
namespace ServerScript

structure Host where
  config : Config := {}
  application : ApplicationStore := {}
  startup : Startup := {}
  /-- The document that declares what happens when the application or a session starts. -/
  events : Option Document := none
  natives : List Native := []
  nextId : Nat := 1
  clock : ClockReading := {}

structure Outcome where
  id : Nat
  response : Response
  session : Option Session
  /-- Why the document was told to stop, if it was. -/
  halt : Option Halt
  error : Option Report
  /-- Milliseconds that were used. -/
  elapsed : Nat

inductive Failure where
  | failed (report : Report)
  | crashed (text : String)
  deriving Inhabited

def Failure.report : Failure → Report
  | failed report => report
  | crashed text => .ofCrash text

/-- What the scripts of one request have in common. -/
structure Exchange where
  site : Site
  control : Control
  startup : Startup

abbrev Serve := ExceptT Failure (StateM Exchange)

namespace Host

def objects (site : Site) : List (String × ObjectRef) :=
  [("err", .err), ("response", .response), ("request", .request), ("server", .server),
    ("application", .application 0)] ++
    if site.session.isSome then [("session", .session 0)] else []

def machine (host : Host) (exchange : Exchange) : Machine :=
  { scopes := {
      globals := (objects exchange.site).map fun (name, ref) => (⟨name⟩, .object ref)
      optionBase := host.config.optionBase }
    callLimit := host.config.callLimit
    control := exchange.control
    site := exchange.site
    natives := host.natives
    clock := host.clock }

def failureOf (source : Option String) (range : Option Range) : Stop → Failure
  | .error e => .failed (.ofError source e range)
  | .fault f => .crashed f.message
  | .exhausted => .crashed "step bound reached"

/-- Runs a script of a document on a state of its own; what it did to the objects of the request
stays. -/
def runScript (host : Host) (document : Document) (act : Run α) : Serve α := fun exchange =>
  let (result, m) := act (host.machine exchange)
  (result.mapError (failureOf document.source m.errorRange),
    { exchange with site := m.site, control := m.control })

def runEvent (host : Host) (document : Document) (name : String) : Serve Unit :=
  host.runScript document do
    Interpreter.hoist document.statements
    discard (Script.call? name [])

/-- The events ahead of a request: the start of the application, which is tried once, and the
start of a new session. -/
def runStart (host : Host) : Serve Unit := do
  match host.events with
  | none => return
  | some document =>
    let (due, startup) := (← get).startup.start
    modify fun exchange => { exchange with startup }
    if due then host.runEvent document "application_onstart"
    if (← get).site.session.any (·.isNew) then host.runEvent document "session_onstart"

def exchange (host : Host) (request : RequestData) (session : Option Session) : Exchange :=
  { site := {
      request := .ofData request
      session
      application := host.application
      root := host.config.root
      script := request.path
      requestId := host.nextId }
    control := { timeout := some host.config.timeout }
    startup := host.startup }

/-- The host after an exchange, with all locks of the request given back. -/
def conclude (host : Host) (exchange : Exchange) : Host :=
  { host with
    application := exchange.site.application.release host.nextId
    startup := exchange.startup
    nextId := host.nextId + 1 }

/-- Serves a request to its end. A request without a session starts one. -/
def execute (host : Host) (document : Document) (request : RequestData := {})
    (session : Option Session := none) : Outcome × Host :=
  let session := session.getD { id := Session.idOf host.nextId }
  let serve : Serve (Option Halt) := do
    host.runStart
    host.runScript document document.render
  let (result, exchange) := serve (host.exchange request (some session))
  let outcome : Outcome :=
    { id := host.nextId
      response := exchange.site.response
      session := exchange.site.session.map fun s => { s with isNew := false }
      halt := result.toOption.join
      error := match result with
        | .ok _ => none
        | .error failure => some failure.report
      elapsed := exchange.control.elapsed / Control.looksPerMillisecond }
  (outcome, host.conclude exchange)

/-- Ends the application, once, if it was started. A crash goes up before the locks are given
back. -/
def shutdown (host : Host) : Except Failure Bool × Host :=
  match host.events with
  | none => (.ok false, host)
  | some document =>
    let (due, startup) := host.startup.finish
    let start := { host.exchange {} none with startup }
    let (result, exchange) :=
      if due then host.runEvent document "application_onend" start else (.ok (), start)
    let ended := match result with
      | .error (.crashed _) =>
        { host.conclude exchange with application := exchange.site.application }
      | _ => host.conclude exchange
    (result.map fun () => due, ended)

end Host
end ServerScript
