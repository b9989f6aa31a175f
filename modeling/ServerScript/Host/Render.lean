import ServerScript.Eval.Run

/-! Running a document: text is written as it stands, code is run and output expressions are
evaluated and written, in the order of the document. -/
namespace ServerScript.Document

/-- Runs one piece and tells whether the request was told to stop in it. -/
def renderSection : Section → Run (Option Halt)
  | .markup text => do
    Members.modifyResponse (·.write text)
    return none
  | .code program => do
    match ← Script.exec program with
    | .halt reason => return some reason
    | _ => return none
  | .output e range => do
    match ← Script.output e range with
    | some v => Members.modifyResponse (·.write v.toText)
    | none => pure ()
    return (← get).control.halt

def renderSections : List Section → Run (Option Halt)
  | [] => return none
  | piece :: rest => do
    match ← renderSection piece with
    | some reason => return some reason
    | none => renderSections rest

/-- Runs a document after defining the procedures and classes of all its code. -/
def render (document : Document) : Run (Option Halt) := do
  Interpreter.hoist document.statements
  renderSections document.sections

end ServerScript.Document
