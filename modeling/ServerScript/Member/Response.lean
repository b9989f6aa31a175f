import ServerScript.Member.Basic

/-! The members of the response and of its cookies. -/
namespace ServerScript.Members

def modifyResponse (f : Response → Response) : Run Unit :=
  Run.modifySite fun site => { site with response := f site.response }

def cookieItem (args : List Value) : Run Value := do
  let found := (← get).site.response.cookie? (Value.arg args 0).toText
  return found.elim .empty .string

def cookies : Members where
  read name := do
    match name with
    | "count" => return Value.ofNat (← get).site.response.cookies.length
    | _ => unknown "IRequestDictionary" name
  write name _ := unknown "IRequestDictionary" name
  call name args := do
    match name with
    | "item" | "" => cookieItem args
    | "count" => return Value.ofNat (← get).site.response.cookies.length
    | _ => unknown "IRequestDictionary" name
  writeItem args value :=
    modifyResponse (·.setCookie (Value.arg args 0).toText value.toText)
  entries := do return some ((← get).site.response.cookies.map fun pair => .string pair.1)

def responseRead (name : String) : Run Value := do
  let r := (← get).site.response
  match name with
  | "contenttype" => return .string r.contentType
  | "charset" => return r.charset.elim .empty .string
  | "status" => return .string r.status
  | "buffer" => return .bool r.buffer
  | "expires" => return r.expires.elim .empty .integer
  | "cookies" => return .object (.cookies (← freshView))
  | "isclientconnected" => return .bool true
  | _ => unknown "IResponse" name

/-- Ending and redirecting ask for a stop of the request; the statement that does so completes. -/
def response : Members where
  read := responseRead
  write name value :=
    match name with
    | "contenttype" => modifyResponse fun r => { r with contentType := value.toText }
    | "charset" => modifyResponse fun r => { r with charset := some value.toText }
    | "status" => modifyResponse fun r => { r with status := value.toText }
    | "buffer" => modifyResponse fun r => { r with buffer := value.isTruthy }
    | "expires" => modifyResponse fun r => { r with expires := some value.toWord }
    | _ => unknown "IResponse" name
  call name args :=
    let text := (Value.arg args 0).toText
    match name with
    | "write" | "binarywrite" => answerEmpty (modifyResponse (·.write text))
    | "end" => answerEmpty (Run.modifyControl (·.requestHalt .finish))
    | "redirect" => answerEmpty do
      modifyResponse (·.redirectTo text)
      Run.modifyControl (·.requestHalt (.redirect text))
    | "clear" => answerEmpty (modifyResponse (·.clear))
    | "flush" => return .empty
    | "addheader" => answerEmpty (modifyResponse (·.addHeader text (Value.arg args 1).toText))
    | "appendtolog" => answerEmpty (modifyResponse fun r => { r with log := r.log.push text })
    | "cookies" => if args.isEmpty then responseRead name else cookieItem args
    | _ => responseRead name
  writeItem := noItems "IResponse"

end ServerScript.Members
