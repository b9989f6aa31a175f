import ServerScript.Member.Basic

/-! The members of the request and of its collections, none of which can be written. -/
namespace ServerScript.Members

def notWritable (owner member : String) : Run α :=
  Run.error (.propertyNotWritable (owner ++ "." ++ member))

def collectionCall (c : Collection) (name : String) (args : List Value) : Run Value :=
  match name with
  | "item" | "" => Run.ofFault (c.item (Value.arg args 0))
  | "key" => Run.ofFault (c.keyAt (Value.arg args 0))
  | "count" => return Value.ofNat c.size
  | _ => unknown c.title name

def collection (c : Collection) : Members where
  read name :=
    match name with
    | "count" => return Value.ofNat c.size
    | _ => unknown c.title name
  write name _ := notWritable c.title name
  call := collectionCall c
  writeItem := noItems c.title
  entries := return some c.names

def requestRead (name : String) : Run Value := do
  let request := (← get).site.request
  match request.collection? name with
  | some (view, content) => return .object (.collection view content)
  | none =>
    match name with
    | "totalbytes" => return Value.ofNat request.totalBytes
    | _ => unknown "IRequest" name

/-- A collection is called with a key for one of its items; the request itself looks through all
of its collections. -/
def request : Members where
  read := requestRead
  write name _ := notWritable "Request" name
  call name args := do
    let request := (← get).site.request
    match request.collection? name with
    | some (_, content) =>
      if args.isEmpty then requestRead name else collectionCall content "" args
    | none =>
      match name with
      | "item" | "" => return request.lookup (Value.arg args 0).toText
      | "totalbytes" => requestRead name
      | _ => unknown "IRequest" name
  writeItem := noItems "IRequest"

end ServerScript.Members
