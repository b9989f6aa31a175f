import ServerScript.Member.Basic

/-! The members of the object that describes the error resumed last. -/
namespace ServerScript.Members

def modifyErr (f : ErrRecord → ErrRecord) : Run Unit := modify fun m => { m with err := f m.err }

def textOr (omitted : String) (v : Value) : String := if v.isEmpty then omitted else v.toText

def raisedBy (args : List Value) : EvalError :=
  .raised (Value.arg args 0).toWord (textOr "VBScript" (Value.arg args 1))
    (textOr "Unknown runtime error" (Value.arg args 2))

def err : Members where
  read name := do
    let e := (← get).err
    match name with
    | "number" | "" => return .integer e.number
    | "description" => return .string e.description
    | "source" => return .string e.source
    | _ => unknown "ErrObject" name
  write name value :=
    match name with
    | "number" => modifyErr fun e => { e with number := value.toWord }
    | "description" => modifyErr fun e => { e with description := value.toText }
    | "source" => modifyErr fun e => { e with source := value.toText }
    | _ => unknown "ErrObject" name
  call name args :=
    match name with
    | "clear" => answerEmpty (modifyErr fun _ => {})
    | "raise" => Run.error (raisedBy args)
    | "" => do return .integer (← get).err.number
    | _ => unknown "ErrObject" name
  writeItem := noItems "ErrObject"

end ServerScript.Members
