import ServerScript.Heap.Arrays

/-! Where names live. A read looks at constants, at the variables of the running procedures from
the innermost outward, at the members of the current instance and at the globals, in this order.
A write goes to the place where a read would find a variable, and to the globals if there is
none. -/
namespace ServerScript

abbrev Frame := List (Name × Value)

structure Scope where
  locals : Frame := []
  constants : Frame := []

structure InstanceRef where
  cell : Nat
  cls : ClassDef

def InstanceRef.value (i : InstanceRef) : Value := .inst i.cell i.cls

inductive Resolved where
  | value (v : Value)
  /-- A procedure or property of the current instance, to be run on it. -/
  | member (i : InstanceRef)
  | missing

inductive Assigned where
  | done
  /-- The value has to go through an accessor of the current instance. -/
  | accessor (i : InstanceRef)

def textConstants : List (String × String) :=
  [("vbcrlf", "\r\n"), ("vbcr", "\r"), ("vblf", "\n"), ("vbnewline", "\r\n"), ("vbtab", "\t"),
    ("vbnullchar", "\x00"), ("vbnullstring", ""), ("vbback", "\x08"), ("vbformfeed", "\x0c"),
    ("vbverticaltab", "\x0b")]

def wordConstants : List (String × Int64) :=
  [("vbbinarycompare", 0), ("vbtextcompare", 1), ("vbdatabasecompare", 2), ("vbtrue", -1),
    ("vbfalse", 0), ("vbusesystemdayofweek", 0), ("vbsunday", 1), ("vbmonday", 2),
    ("vbgeneraldate", 0), ("vblongdate", 1), ("vbshortdate", 2), ("vblongtime", 3),
    ("vbshorttime", 4), ("vbempty", 0), ("vbnull", 1), ("vbinteger", 2), ("vblong", 3),
    ("vbsingle", 4), ("vbdouble", 5), ("vbcurrency", 6), ("vbdate", 7), ("vbstring", 8),
    ("vbobject", 9), ("vbboolean", 11), ("vbvariant", 12), ("vbarray", 8192),
    ("vbobjecterror", -2147221504), ("vbbyte", 17)]

def builtinConstants : Frame :=
  textConstants.map (fun (name, text) => (⟨name⟩, .string text)) ++
    wordConstants.map fun (name, word) => (⟨name⟩, .integer word)

structure Scopes where
  /-- The running procedures, innermost first. -/
  frames : List Scope := []
  globals : Frame := []
  constants : Frame := builtinConstants
  /-- The instance that `Me` stands for. -/
  me : Option InstanceRef := none
  compareMode : CompareMode := .binary
  /-- The first index of declared arrays. -/
  optionBase : Int64 := 0

namespace Scopes

def push (s : Scopes) : Scopes := { s with frames := {} :: s.frames }

def pop (s : Scopes) : Scopes := { s with frames := s.frames.drop 1 }

def depth (s : Scopes) : Nat := s.frames.length

def constant? (s : Scopes) (name : Name) : Option Value :=
  match s.frames.findSome? fun scope => lookupName name scope.constants with
  | some v => some v
  | none => lookupName name s.constants

def isConstant (s : Scopes) (name : Name) : Bool := (s.constant? name).isSome

def frameVariable? (s : Scopes) (name : Name) : Option Value :=
  s.frames.findSome? fun scope => lookupName name scope.locals

def global? (s : Scopes) (name : Name) : Option Value := lookupName name s.globals

def member? (s : Scopes) (h : Heap) (name : Name) : Option Resolved :=
  match s.me with
  | none => none
  | some i =>
    match h.field? i.cell name with
    | some v => some (.value v)
    | none => if i.cls.hasProcedure name then some (.member i) else none

def resolve (s : Scopes) (h : Heap) (name : Name) : Resolved :=
  match s.constant? name with
  | some v => .value v
  | none =>
    match s.frameVariable? name with
    | some v => .value v
    | none =>
      match s.member? h name with
      | some found => found
      | none =>
        match s.global? name with
        | some v => .value v
        | none => .missing

def lookup (s : Scopes) (h : Heap) (name : Name) : Option Value :=
  match s.resolve h name with
  | .value v => some v
  | _ => none

/-- A name of the innermost procedure, or a global outside of procedures. -/
def local? (s : Scopes) (name : Name) : Option Value :=
  match s.frames with
  | scope :: _ => lookupName name scope.locals
  | [] => s.global? name

def setInFrames (name : Name) (value : Value) : List Scope → List Scope
  | [] => []
  | scope :: rest =>
    if (lookupName name scope.locals).isSome then
      { scope with locals := putName name value scope.locals } :: rest
    else scope :: setInFrames name value rest

def setGlobal (s : Scopes) (name : Name) (value : Value) : Scopes :=
  { s with globals := putName name value s.globals }

/-- Assigns a variable, a field of the current instance, or a global. -/
def assign (s : Scopes) (h : Heap) (name : Name) (value : Value) :
    Except EvalError (Scopes × Heap × Assigned) :=
  if s.isConstant name then .error (.assignToConstant name.text)
  else if (s.frameVariable? name).isSome then
    .ok ({ s with frames := setInFrames name value s.frames }, h, .done)
  else
    match s.me with
    | none => .ok (s.setGlobal name value, h, .done)
    | some i =>
      if (h.field? i.cell name).isSome then .ok (s, h.setField i.cell name value, .done)
      else if i.cls.hasWriter name then .ok (s, h, .accessor i)
      else .ok (s.setGlobal name value, h, .done)

/-- Assigns the final value of a parameter to the variable it was read from; constants are left
alone. -/
def writeBack (s : Scopes) (h : Heap) (name : Name) (value : Value) :
    Except EvalError (Scopes × Heap × Assigned) :=
  if s.isConstant name then .ok (s, h, .done) else s.assign h name value

def define (s : Scopes) (name : Name) (value : Value) : Except EvalError Scopes :=
  match s.frames with
  | scope :: rest =>
    if (lookupName name scope.constants).isSome then .error (.constantAlreadyDefined name.text)
    else
      .ok { s with frames := { scope with locals := putName name value scope.locals } :: rest }
  | [] =>
    if (lookupName name s.constants).isSome then .error (.constantAlreadyDefined name.text)
    else .ok (s.setGlobal name value)

def declare (s : Scopes) (name : Name) (value : Value) : Except EvalError Scopes :=
  if (s.local? name).isSome then .ok s else s.define name value

/-- Refuses a constant whose name is taken in the same place. -/
def constantClash (name : Name) (constants taken : Frame) : Except EvalError Unit :=
  if (lookupName name constants).isSome then .error (.constantAlreadyDefined name.text)
  else if (lookupName name taken).isSome then .error (.constantShadowsVariable name.text)
  else .ok ()

def setConstant (s : Scopes) (name : Name) (value : Value) : Except EvalError Scopes :=
  match s.frames with
  | scope :: rest =>
    (constantClash name scope.constants scope.locals).map fun () =>
      { s with frames := { scope with constants := putName name value scope.constants } :: rest }
  | [] =>
    (constantClash name s.constants s.globals).map fun () =>
      { s with constants := putName name value s.constants }

def clearGlobals (s : Scopes) : Scopes := { s with globals := [] }

end Scopes
end ServerScript
