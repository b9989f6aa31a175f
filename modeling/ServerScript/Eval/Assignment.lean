import ServerScript.Eval.Expression

/-! The rules of assignment. A plain assignment copies arrays; an object assignment takes only
references. -/
namespace ServerScript.Interpreter

def storeElement (ev : Interpreter) (container : Value) (index : List Value) (value : Value)
    (name : Name) : Run Unit := do
  match container with
  | .array cell =>
    if !(← Run.onHeap (·.setPath cell (index.map Value.toWord) value)) then
      Run.error .subscriptOutOfRange
  | .object ref => ref.members.writeItem index value
  | .inst cell cls => writeMember ev ⟨cell, cls⟩ .blank index value false .outside
  | _ => Run.error (.typeMismatch name.text)

def assignOn (ev : Interpreter) (target : Value) (name : Name) (index : List Value)
    (value : Value) (set : Bool) : Run Unit := do
  match target with
  | .inst cell cls =>
    writeMember ev ⟨cell, cls⟩ name index value set (← Run.reachOf ⟨cell, cls⟩)
  | .object ref =>
    if index.isEmpty then ref.members.write name.text value
    else ev.store (← readObject ref name) index value name
  | _ => Run.error (.objectRequired name.text)

def assignIndexed (ev : Interpreter) (name : Name) (index : List Value) (value : Value)
    (set : Bool) : Run Unit := do
  match ← Run.resolve name with
  | .value container => ev.store container index value name
  | .member i => writeMember ev i name index value set .inside
  | .missing => Run.error (.undefinedVariable name.text)

/-- Assigns a value that was evaluated before. The index comes first, then the container. -/
def assignTo (ev : Interpreter) (target : Expr) (value : Value) (set : Bool) : Run Unit := do
  match target with
  | .ident name => assignName ev name value set
  | .call callee index =>
    let index := (← arguments ev index).values
    match callee with
    | .ident name => assignIndexed ev name index value set
    | .member object name => assignOn ev (← ev.expr object) name index value set
    | .withMember name => assignOn ev (← Run.withTarget name) name index value set
    | other => ev.store (← ev.expr other) index value .blank
  | .member object name => assignOn ev (← ev.expr object) name [] value set
  | .withMember name => assignOn ev (← Run.withTarget name) name [] value set
  | _ => Run.error (.runtime "invalid assignment target")

def assignedValue (target : Expr) (value : Value) (set : Bool) : Run Value :=
  if set then
    if value.isObject then return value else Run.error (.objectRequired target.targetName)
  else Run.deepCopy value

def execAssign (ev : Interpreter) (target value : Expr) (set : Bool) : Run Unit := do
  let value ← ev.expr value
  assignTo ev target (← assignedValue target value set) set

end ServerScript.Interpreter
