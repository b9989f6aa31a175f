import ServerScript.Number.Numeral
import ServerScript.Text.Case

/-! Settings of a host and how the environment changes them. A value that cannot be read leaves the
default in place. -/
namespace ServerScript

inductive LogFormat where
  | text
  | json
  deriving DecidableEq, Repr, Inhabited, BEq

structure Config where
  /-- The time a request may take, in milliseconds. -/
  timeout : Nat := 90000
  /-- How deep procedure calls may nest. -/
  callLimit : Nat := 32
  /-- The first index of declared arrays. -/
  optionBase : Int64 := 0
  /-- The directory that virtual paths start from. -/
  root : String := "."
  logLevel : String := "asp_lang=info,asp_run=info"
  logFormat : LogFormat := .text
  deriving DecidableEq, Repr, Inhabited, BEq

namespace Config

def settings : List String :=
  ["ASP_SCRIPT_TIMEOUT", "ASP_MAX_CALL_DEPTH", "ASP_OPTION_BASE", "ASP_ROOT_DIR", "RUST_LOG",
    "ASP_LOG_LEVEL", "ASP_LOG_FORMAT"]

def timeoutOf (text : String) (default : Nat) : Nat :=
  ((Number.natural? UInt64.size text.toList).map (· * 1000)).getD default

def callLimitOf (text : String) (default : Nat) : Nat :=
  ((Number.natural? UInt32.size text.toList).filter (0 < ·)).getD default

def optionBaseOf (text : String) (default : Int64) : Int64 :=
  match Text.trim text with
  | "0" => 0
  | "1" => 1
  | _ => default

def logFormatOf (text : String) : LogFormat :=
  if Text.lower text == "json" then .json else .text

def ofEnvironment (env : String → Option String) : Config :=
  let c : Config := {}
  { timeout := (env "ASP_SCRIPT_TIMEOUT").elim c.timeout (timeoutOf · c.timeout)
    callLimit := (env "ASP_MAX_CALL_DEPTH").elim c.callLimit (callLimitOf · c.callLimit)
    optionBase := (env "ASP_OPTION_BASE").elim c.optionBase (optionBaseOf · c.optionBase)
    root := (env "ASP_ROOT_DIR").getD c.root
    logLevel := (env "RUST_LOG" <|> env "ASP_LOG_LEVEL").getD c.logLevel
    logFormat := (env "ASP_LOG_FORMAT").elim c.logFormat logFormatOf }

end Config
end ServerScript
