import ServerScript.Code.Reader
import ServerScript.Command.Help
import ServerScript.Command.Options
import ServerScript.Host.Basic
import ServerScript.Json.Printer

/-! The command as a function of its arguments, its environment and the files it reads. -/
namespace ServerScript.Command

structure World where
  env : String → Option String
  /-- The text of a file that can be read. -/
  file : String → Option String
  stdin : String
  clock : ClockReading := {}

/-- What a run leaves: its exit code, what it printed and what it complained about. -/
structure Result where
  code : Nat
  output : String := ""
  complaints : List String := []
  deriving DecidableEq, Repr, Inhabited, BEq

/-- Whether a path stands for the standard input: a hyphen, followed by nothing but parts that
stay in place, or the name of the device. -/
def namesStdin (path : String) : Bool :=
  match Path.split path.toList with
  | ['-'] :: rest => rest.all Path.stays
  | _ => path = "/dev/stdin"

/-- Reads a document and gives what is left of the standard input, which can be read once. -/
def load (world : World) (stdin : String) (path : String) : Except String (Document × String) :=
  let parsed (text : String) : Except String Document :=
    match Document.ofText? text with
    | some document => .ok document
    | none => .error (path ++ " is not a parsed document")
  if namesStdin path then (parsed stdin).map (·, "")
  else
    match world.file path with
    | some text => (parsed text).map (·, stdin)
    | none => .error ("failed to read " ++ path)

def loadAll (world : World) : String → List String → Except String (List Document)
  | _, [] => .ok []
  | stdin, path :: rest => do
    let (document, stdin) ← load world stdin path
    return document :: (← loadAll world stdin rest)

def pair (text : String) : Except String (String × String) :=
  match splitEquals text.toList with
  | (key, some value) => .ok (key, value)
  | (_, none) => .error ("expected KEY=VALUE, got '" ++ text ++ "'")

def Options.request (o : Options) : Except String RequestData := do
  let query ← o.query.mapM pair
  let form ← o.form.mapM pair
  let cookies ← o.cookies.mapM pair
  return { method := Text.upper o.method, query, form, cookies }

def executeAll (request : RequestData) : Host → List Document → List Outcome × Host
  | host, [] => ([], host)
  | host, document :: rest =>
    let (outcome, host) := host.execute document request
    let (outcomes, host) := executeAll request host rest
    (outcome :: outcomes, host)

/-- The report of one outcome, its members in the order of their names. -/
def outcomeJson (file : String) (o : Outcome) : Json :=
  .object
    [("content_type", .string o.response.contentType), ("elapsed_ms", .nat o.elapsed),
      ("error", o.error.elim .null fun report => .string report.cause.message),
      ("file", .string file), ("id", .nat o.id), ("output", .string o.response.body),
      ("status", .string o.response.status)]

def outcomeText (json : Bool) (file : String) (o : Outcome) : String :=
  if json then (outcomeJson file o).compact ++ "\n" else o.response.body

/-- The exit code: a crash while shutting down is told apart from failures. -/
def exitCode (outcomes : List Outcome) : Except Failure Bool → Nat
  | .error (.crashed _) => 101
  | .error (.failed _) => 1
  | .ok _ => if outcomes.any (·.error.isSome) then 1 else 0

/-- The failures of a run: the first failed request, then the end of the application. -/
def complaintsOf (outcomes : List Outcome) (ended : Except Failure Bool) : List String :=
  let failed := (outcomes.filterMap (·.error)).take 1
  let late := match ended with
    | .error failure => [failure.report]
    | .ok _ => []
  (failed ++ late).map (·.cause.message)

def serve (world : World) (o : Options) (events : Option Document) (request : RequestData)
    (documents : List Document) : Result :=
  let host : Host :=
    { config := o.config (Config.ofEnvironment world.env), events, clock := world.clock }
  let (outcomes, host) := executeAll request host documents
  let ended := host.shutdown.1
  { code := exitCode outcomes ended
    output := "".intercalate (List.zipWith (outcomeText o.json) o.files outcomes)
    complaints := complaintsOf outcomes ended }

def runOptions (world : World) (o : Options) : Except String Result := do
  let documents ← loadAll world world.stdin o.sources
  let request ← o.request
  match o.events with
  | some _ => return serve world o documents.head? request documents.tail
  | none => return serve world o none request documents

def run (world : World) (args : List String) : Result :=
  match parse args with
  | .run options =>
    match runOptions world options with
    | .ok result => result
    | .error complaint => { code := 1, complaints := [complaint] }
  | .help => { code := 0, output := helpText }
  | .version => { code := 0, output := versionText }
  | .refused => { code := 2, complaints := [usageText] }

end ServerScript.Command
