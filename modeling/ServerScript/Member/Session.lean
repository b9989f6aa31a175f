import ServerScript.Member.Basic

/-! The members of the session. -/
namespace ServerScript.Members

def currentSession : Run Session := do return ((← get).site.session).getD { id := "" }

def modifySession (f : Session → Session) : Run Unit :=
  Run.modifySite fun site => { site with session := site.session.map f }

def sharedItem (c : Contents) (key : Value) : Run Value := do
  match ← Run.ofFault (c.lookup key) with
  | some v => Run.onHeap (v.toValue ·)
  | none => return .empty

def toShared (v : Value) : Run SharedValue := do
  Run.ofExcept (SharedValue.ofValue (← get).heap v)

def sessionRead (name : String) : Run Value := do
  let s ← currentSession
  match name with
  | "sessionid" => return .string s.id
  | "timeout" => return .integer s.timeout
  | "count" => return Value.ofNat s.contents.size
  | "contents" => return .object (.session (← freshView))
  | _ => unknown "ISessionObject" name

def session : Members where
  read := sessionRead
  write name value :=
    match name with
    | "timeout" =>
      if 0 < value.toWord.toInt then modifySession fun s => { s with timeout := value.toWord }
      else Run.error (.invalidArgument "Session.Timeout")
    | _ => unknown "ISessionObject" name
  call name args := do
    let key := Value.arg args 0
    match name with
    | "abandon" => answerEmpty (modifySession fun s => { s with abandoned := true })
    | "contents" =>
      if args.isEmpty then sessionRead name else sharedItem (← currentSession).contents key
    | "item" | "" => sharedItem (← currentSession).contents key
    | "remove" =>
      answerEmpty (modifySession fun s => { s with contents := s.contents.remove key.toText })
    | "removeall" => answerEmpty (modifySession fun s => { s with contents := s.contents.clear })
    | "sessionid" | "timeout" | "count" => sessionRead name
    | _ => unknown "ISessionObject" name
  writeItem args value := do
    let shared ← toShared value
    modifySession fun s =>
      { s with contents := s.contents.insert (Value.arg args 0).toText shared }
  entries := do return some ((← currentSession).contents.keys.map .string)

end ServerScript.Members
