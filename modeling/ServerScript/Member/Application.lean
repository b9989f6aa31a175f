import ServerScript.Member.Session

/-! The members of the application, which all requests share. -/
namespace ServerScript.Members

def applicationRead (name : String) : Run Value := do
  match name with
  | "contents" => return .object (.application (← freshView))
  | "count" => return Value.ofNat (← get).site.application.contents.size
  | _ => unknown "IApplicationObject" name

/-- Reading is always possible; locking and writing wait for their turn. -/
def application : Members where
  read := applicationRead
  write name _ := unknown "IApplicationObject" name
  call name args := do
    let key := Value.arg args 0
    let site := (← get).site
    match name with
    | "lock" => answerEmpty (Run.onApplication (·.lock site.requestId))
    | "unlock" => answerEmpty (Run.modifySite fun site =>
        { site with application := site.application.unlock site.requestId })
    | "contents" =>
      if args.isEmpty then applicationRead name else sharedItem site.application.contents key
    | "item" | "" => sharedItem site.application.contents key
    | "remove" => answerEmpty (Run.onApplication (·.remove site.requestId key.toText))
    | "removeall" => answerEmpty (Run.onApplication (·.clear site.requestId))
    | "count" => applicationRead name
    | _ => unknown "IApplicationObject" name
  writeItem args value := do
    let shared ← toShared value
    let request := (← get).site.requestId
    Run.onApplication (·.set request (Value.arg args 0).toText shared)
  entries := do return some ((← get).site.application.contents.keys.map .string)

end ServerScript.Members
