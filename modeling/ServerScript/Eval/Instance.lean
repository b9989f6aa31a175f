import ServerScript.Eval.Interpreter

/-! Instances of classes: their creation and the reading, calling and writing of their members. -/
namespace ServerScript.Interpreter

def callWith (ev : Interpreter) (decl : Procedure) (this : Option InstanceRef)
    (values : List Value) : Run Invocation :=
  if decl.params.length < values.length then
    Run.error (.invalidNumberOfArguments decl.name.text)
  else ev.invoke decl this values

def memberName (cls : ClassDef) (name : Name) : Except EvalError Name :=
  if name.isBlank then
    match cls.defaultMember with
    | some member => .ok member
    | none => .error (.notSupported (cls.name ++ " default member"))
  else .ok name

def enterGetter (cell : Nat) (name : Name) (h : Heap) : Heap × Bool :=
  match h.instance? cell with
  | none => (h, true)
  | some content =>
    if content.running.contains name then (h, false)
    else
      (h.modifyInstance cell fun content =>
        { content with running := name :: content.running }, true)

def leaveGetter (cell : Nat) (name : Name) (h : Heap) : Heap :=
  h.modifyInstance cell fun content => { content with running := content.running.erase name }

/-- Runs a property read. One that is reached again while it runs on the same instance reads as
empty. -/
def guardGetter (i : InstanceRef) (name : Name) (read : Run Value) : Run Value := do
  if ← Run.onHeap (enterGetter i.cell name) then
    let result ← Run.attempt read
    Run.modifyHeap (leaveGetter i.cell name)
    Run.ofStop result
  else return .empty

def fieldValue (i : InstanceRef) (name : Name) : Run Value := do
  return ((← get).heap.field? i.cell name).getD .empty

def getter? (cls : ClassDef) (name : Name) (reach : Reach) : Option Procedure :=
  ((cls.property? name).bind (·.get)).filter fun decl => reach.allows decl.access

def writer? (cls : ClassDef) (name : Name) (set : Bool) (reach : Reach) : Option Procedure :=
  ((cls.property? name).bind (·.writer set)).filter fun decl => reach.allows decl.access

def method? (cls : ClassDef) (name : Name) (reach : Reach) : Option Procedure :=
  (cls.procedure? name).filter fun decl => reach.allows decl.access

def fieldInReach (cls : ClassDef) (name : Name) (reach : Reach) : Bool :=
  (cls.field? name).any fun field => reach.allows field.access

/-- Assigns a member: a field or an element of it, a property with a write accessor, or an element
of what a property reads as. -/
def writeMember (ev : Interpreter) (i : InstanceRef) (name : Name) (index : List Value)
    (value : Value) (set : Bool) (reach : Reach) : Run Unit := do
  let name ← Run.ofExcept (memberName i.cls name)
  if fieldInReach i.cls name reach then
    if index.isEmpty then Run.modifyHeap (·.setField i.cell name value)
    else ev.store (← fieldValue i name) index value name
  else
    match writer? i.cls name set reach with
    | some writer => discard (callWith ev writer (some i) (index ++ [value]))
    | none =>
      match getter? i.cls name reach with
      | some getter =>
        if index.isEmpty then Run.error (.propertyNotWritable name.text)
        else
          let container ← guardGetter i name do return (← callWith ev getter (some i) []).value
          ev.store container index value name
      | none => Run.error (.propertyNotWritable name.text)

/-- Finishes a write that has to go through an accessor of the current instance. -/
def finishAssign (ev : Interpreter) (name : Name) (value : Value) (set : Bool) :
    Assigned → Run Unit
  | .done => return
  | .accessor i => writeMember ev i name [] value set .inside

def assignName (ev : Interpreter) (name : Name) (value : Value) (set : Bool) : Run Unit := do
  finishAssign ev name value set (← Run.assignWith fun scopes h => scopes.assign h name value)

/-- Hands the final value of a parameter back to the variable it was read from. -/
def writeBack (ev : Interpreter) (name : Name) (value : Value) : Run Unit := do
  finishAssign ev name value false
    (← Run.assignWith fun scopes h => scopes.writeBack h name value)

def writeBackAll (ev : Interpreter) : List Param → List (Option Name) → List Value → Run Unit
  | param :: params, origin :: origins, value :: values => do
    match origin with
    | some name => if !param.byVal then writeBack ev name value
    | none => pure ()
    writeBackAll ev params origins values
  | _, _, _ => return

/-- Calls a procedure and hands back what it made of its arguments. -/
def callProcedure (ev : Interpreter) (decl : Procedure) (this : Option InstanceRef)
    (args : Arguments) : Run Value := do
  let result ← callWith ev decl this args.values
  writeBackAll ev decl.params args.origins result.params
  return result.value

/-- A call of a sub, a function or a property of an instance, if there is one within reach. -/
def memberCall? (ev : Interpreter) (i : InstanceRef) (name : Name) (args : Arguments)
    (reach : Reach) : Option (Run Value) :=
  match method? i.cls name reach with
  | some decl => some (callProcedure ev decl (some i) args)
  | none =>
    (getter? i.cls name reach).map fun getter =>
      guardGetter i name (callProcedure ev getter (some i) args)

def callDefault (ev : Interpreter) (i : InstanceRef) (values : List Value) : Run Value := do
  let name ← Run.ofExcept (memberName i.cls .blank)
  match memberCall? ev i name ⟨values, []⟩ .outside with
  | some act => act
  | none => Run.error (.methodNotFound name.text)

/-- `target(args)` on a value: the value itself without arguments, an element of an array, or the
default member of an object. -/
def indexValue (ev : Interpreter) (target : Value) (args : List Value) (name : Name) :
    Run Value := do
  if args.isEmpty then return target
  match target with
  | .array cell =>
    let h := (← get).heap
    return ((h.array? cell).bind fun a => h.getPath a (args.map Value.toWord)).getD .empty
  | .object ref => ref.members.call "" args
  | .inst cell cls => callDefault ev ⟨cell, cls⟩ args
  | _ => Run.error (.typeMismatch name.text)

/-- Reads a member: a field, a property, or the result of a call without arguments. -/
def readMember (ev : Interpreter) (i : InstanceRef) (name : Name) (reach : Reach) : Run Value := do
  match i.cls.field? name with
  | some field =>
    if reach.allows field.access then fieldValue i name
    else Run.error (.memberNotFound name.text)
  | none =>
    match getter? i.cls name reach with
    | some getter => guardGetter i name (callProcedure ev getter (some i) {})
    | none =>
      match method? i.cls name reach with
      | some decl => callProcedure ev decl (some i) {}
      | none => Run.error (.memberNotFound name.text)

def callMember (ev : Interpreter) (i : InstanceRef) (name : Name) (args : Arguments)
    (reach : Reach) : Run Value := do
  let name ← Run.ofExcept (memberName i.cls name)
  match memberCall? ev i name args reach with
  | some act => act
  | none =>
    if fieldInReach i.cls name reach then
      indexValue ev (← fieldValue i name) args.values name
    else Run.error (.methodNotFound name.text)

def dimensions (ev : Interpreter) (dims : List Expr) : Run (List Int64) :=
  dims.mapM fun dim => do return (← ev.expr dim).toWord

def declaredValue (ev : Interpreter) : Option (List Expr) → Run Value
  | some dims => do Run.newDimensions (← dimensions ev dims)
  | none => return .empty

/-- Creates an instance: its fields first, then its own start-up procedure. The bounds of the fields
are evaluated in the order in which the class declares them. The program keeps the fields in a hash
table and goes through it in no fixed order, which shows only if evaluating one bound changes what
another one is; the order of declaration is taken because it is one of the orders that the table
allows, the same on every run, and the one that the text of the class suggests. -/
def instantiate (ev : Interpreter) (name : Name) : Run Value := do
  match ← Run.lookup name with
  | some (.callable _ (.cls cls)) =>
    let fields ← cls.fields.mapM fun (field, definition) => do
      return (field, ← declaredValue ev definition.dims)
    let cell ← Run.onHeap (·.allocInstance { fields })
    match cls.procedure? ⟨"class_initialize"⟩ with
    | some decl => discard (callProcedure ev decl (some ⟨cell, cls⟩) {})
    | none => pure ()
    return .inst cell cls
  | some _ => Run.error (.notAClass name.text)
  | none => Run.error (.classNotDefined name.text)

end ServerScript.Interpreter
