import ServerScript.Host.Config

/-! The arguments of the command. Options and files may be mixed; an option that is given once is
refused a second time, and the first mistake decides. -/
namespace ServerScript.Command

structure Options where
  method : String := "GET"
  query : List String := []
  form : List String := []
  cookies : List String := []
  /-- Seconds a request may take. -/
  timeout : Option Nat := none
  callLimit : Option Nat := none
  optionBase : Option Int64 := none
  root : Option String := none
  logLevel : Option String := none
  logFormat : Option LogFormat := none
  /-- The document that declares the events of the application. -/
  events : Option String := none
  /-- How many documents are run before they are run at the same time. -/
  threshold : Nat := 10
  json : Bool := false
  files : List String := []
  deriving DecidableEq, Repr, Inhabited, BEq

inductive Key where
  | method | query | form | cookie | timeout | callLimit | optionBase | root | logLevel | logFormat
  | events | threshold | json | help | version
  deriving DecidableEq, Repr, Inhabited, BEq

namespace Key

def ofLong? : String → Option Key
  | "method" => some .method
  | "query" => some .query
  | "form" => some .form
  | "cookie" => some .cookie
  | "timeout" => some .timeout
  | "max-call-depth" => some .callLimit
  | "option-base" => some .optionBase
  | "root-dir" => some .root
  | "log-level" => some .logLevel
  | "log-format" => some .logFormat
  | "global" => some .events
  | "json" => some .json
  | "help" => some .help
  | "version" => some .version
  | _ => none

def ofShort? : Char → Option Key
  | 'X' => some .method
  | 'q' => some .query
  | 'g' => some .events
  | 'P' => some .threshold
  | 'h' => some .help
  | 'V' => some .version
  | _ => none

def takesValue : Key → Bool
  | .json | .help | .version => false
  | _ => true

def repeats : Key → Bool
  | .query | .form | .cookie => true
  | _ => false

end Key

inductive Parsed where
  | run (options : Options)
  | help
  | version
  /-- The arguments cannot be understood. -/
  | refused
  deriving DecidableEq, Repr, Inhabited, BEq

/-- What was read so far, with the options that were given. -/
structure Progress where
  options : Options := {}
  given : List Key := []

def integerIn? (low high : Int) (text : String) : Option Int64 :=
  (Number.integer? 10 text.toList).filter fun n => low ≤ n.toInt && n.toInt ≤ high

def path? (text : String) : Option String := if text = "" then none else some text

def setOption? (key : Key) (text : String) (o : Options) : Option Options :=
  match key with
  | .method => some { o with method := text }
  | .query => some { o with query := o.query ++ [text] }
  | .form => some { o with form := o.form ++ [text] }
  | .cookie => some { o with cookies := o.cookies ++ [text] }
  | .timeout =>
    (Number.natural? UInt64.size text.toList).map fun n => { o with timeout := some n }
  | .callLimit =>
    (integerIn? 0 (UInt32.size - 1) text).map fun n => { o with callLimit := some n.toInt.toNat }
  | .optionBase => (integerIn? 0 1 text).map fun n => { o with optionBase := some n }
  | .root => (path? text).map fun path => { o with root := some path }
  | .logLevel => some { o with logLevel := some text }
  | .logFormat =>
    match text with
    | "text" => some { o with logFormat := some .text }
    | "json" => some { o with logFormat := some .json }
    | _ => none
  | .events => (path? text).map fun path => { o with events := some path }
  | .threshold => (Number.natural? UInt64.size text.toList).map fun n => { o with threshold := n }
  | .json => some { o with json := true }
  | .help | .version => some o

def Progress.take? (p : Progress) (key : Key) (text : String) : Option Progress :=
  if !key.repeats && p.given.contains key then none
  else (setOption? key text p.options).map fun options => ⟨options, key :: p.given⟩

def Progress.addFile? (p : Progress) (text : String) : Option Progress :=
  (path? text).map fun path =>
    { p with options := { p.options with files := p.options.files ++ [path] } }

inductive Argument where
  /-- The end of the options. -/
  | endOfOptions
  | file (text : String)
  /-- An option that stands alone; the argument after it may be its value. -/
  | key (key : Key)
  | keyValue (key : Key) (value : String)
  | unknown
  deriving DecidableEq, Repr, Inhabited, BEq

def splitEquals (cs : List Char) : String × Option String :=
  let name := String.ofList (cs.takeWhile (· != '='))
  match cs.dropWhile (· != '=') with
  | _ :: value => (name, some (String.ofList value))
  | [] => (name, none)

def Argument.ofLong (cs : List Char) : Argument :=
  let (name, value) := splitEquals cs
  match Key.ofLong? name, value with
  | none, _ => .unknown
  | some k, none => .key k
  | some k, some v => if k.takesValue then .keyValue k v else .unknown

/-- The value behind a short option, which an equals sign may set off. -/
def attached : List Char → String
  | '=' :: rest => String.ofList rest
  | cs => String.ofList cs

/-- A short option with what follows it. None of the short options without a value lets another
one follow, because each of them ends the reading. -/
def Argument.ofShort (c : Char) (rest : List Char) : Argument :=
  match Key.ofShort? c with
  | none => .unknown
  | some k =>
    if !k.takesValue || rest.isEmpty then .key k else .keyValue k (attached rest)

def Argument.ofText (text : String) : Argument :=
  match text.toList with
  | ['-', '-'] => .endOfOptions
  | '-' :: '-' :: rest => .ofLong rest
  | '-' :: c :: rest => .ofShort c rest
  | _ => .file text

def isValue (text : String) : Bool := text = "-" || text.toList.head? != some '-'

def readArguments : Progress → List String → Parsed
  | p, [] => if p.options.files.isEmpty then .refused else .run p.options
  | p, text :: rest =>
    match Argument.ofText text with
    | .endOfOptions =>
      match rest.foldlM Progress.addFile? p with
      | some p => if p.options.files.isEmpty then .refused else .run p.options
      | none => .refused
    | .file file => (p.addFile? file).elim .refused (readArguments · rest)
    | .unknown => .refused
    | .keyValue k value => (p.take? k value).elim .refused (readArguments · rest)
    | .key .help => .help
    | .key .version => .version
    | .key .json => (p.take? .json "").elim .refused (readArguments · rest)
    | .key k =>
      match rest with
      | [] => .refused
      | value :: rest =>
        if isValue value then (p.take? k value).elim .refused (readArguments · rest)
        else .refused

def parse (args : List String) : Parsed := readArguments {} args

/-- The settings of the environment with those of the options in front. -/
def Options.config (o : Options) (c : Config) : Config :=
  { timeout := (o.timeout.map (· * 1000)).getD c.timeout
    callLimit := o.callLimit.getD c.callLimit
    optionBase := o.optionBase.getD c.optionBase
    root := o.root.getD c.root
    logLevel := o.logLevel.getD c.logLevel
    logFormat := o.logFormat.getD c.logFormat }

def Options.sources (o : Options) : List String := o.events.toList ++ o.files

end ServerScript.Command
