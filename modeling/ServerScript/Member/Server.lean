import ServerScript.Member.Basic
import ServerScript.Function.Inspection
import ServerScript.Host.Encoding
import ServerScript.Host.Path

/-! The members of the server: encodings, paths and the time a script may take. -/
namespace ServerScript.Members

def scriptTimeout : Run Value := do
  return (← get).control.timeout.elim .empty fun ms => Value.ofNat (ms / 1000)

def server : Members where
  read name :=
    match name with
    | "scripttimeout" => scriptTimeout
    | _ => unknown "IServer" name
  write name value :=
    match name with
    | "scripttimeout" =>
      if 0 < value.toWord.toInt then
        Run.modifyControl fun c => { c with timeout := some (value.toWord.toInt.toNat * 1000) }
      else Run.error (.invalidArgument "Server.ScriptTimeout")
    | _ => unknown "IServer" name
  call name args := do
    let text := (Value.arg args 0).toText
    match name with
    | "createobject" => Function.createObject text
    | "htmlencode" => return .string (Encoding.html text)
    | "urlencode" => return .string (Encoding.query text)
    | "urlpathencode" => return .string (Encoding.path text)
    | "mappath" =>
      let site := (← get).site
      return .string (Path.map site.root site.script text)
    | "scripttimeout" => scriptTimeout
    | _ => unknown "IServer" name
  writeItem := noItems "IServer"

end ServerScript.Members
