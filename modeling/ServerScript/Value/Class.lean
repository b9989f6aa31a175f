import ServerScript.Code.Stmt
import ServerScript.Error

/-! Classes as collected from their declarations. A member name is used once; only the accessors
of one property share a name, one for each of reading, plain and object assignment. -/
namespace ServerScript

structure FieldDef where
  access : Access
  dims : Option (List Expr)

structure PropertyGroup where
  get : Option Procedure := none
  letWriter : Option Procedure := none
  setWriter : Option Procedure := none

namespace PropertyGroup

def slot (group : PropertyGroup) : ProcedureKind → Option Procedure
  | .propertyLet => group.letWriter
  | .propertySet => group.setWriter
  | _ => group.get

def put (group : PropertyGroup) (decl : Procedure) : PropertyGroup :=
  match decl.kind with
  | .propertyLet => { group with letWriter := some decl }
  | .propertySet => { group with setWriter := some decl }
  | _ => { group with get := some decl }

/-- The accessor of a write: each form of assignment prefers its own and falls back to the
other. -/
def writer (group : PropertyGroup) (set : Bool) : Option Procedure :=
  if set then group.setWriter <|> group.letWriter else group.letWriter <|> group.setWriter

end PropertyGroup

def lookupName (name : Name) (entries : List (Name × α)) : Option α :=
  (entries.find? (·.1 == name)).map (·.2)

def putName (name : Name) (value : α) : List (Name × α) → List (Name × α)
  | [] => [(name, value)]
  | entry :: rest => if entry.1 == name then (name, value) :: rest else entry :: putName name value rest

structure ClassDef where
  /-- The name as written. -/
  name : String
  fields : List (Name × FieldDef) := []
  /-- Subs and functions. -/
  procedures : List (Name × Procedure) := []
  properties : List (Name × PropertyGroup) := []
  defaultMember : Option Name := none

namespace ClassDef

def field? (cls : ClassDef) (name : Name) : Option FieldDef := lookupName name cls.fields

def procedure? (cls : ClassDef) (name : Name) : Option Procedure := lookupName name cls.procedures

def property? (cls : ClassDef) (name : Name) : Option PropertyGroup :=
  lookupName name cls.properties

def hasProcedure (cls : ClassDef) (name : Name) : Bool :=
  (cls.procedure? name).isSome || (cls.property? name).isSome

def hasWriter (cls : ClassDef) (name : Name) : Bool :=
  (cls.property? name).any fun group => (group.writer false).isSome

def duplicate (cls : ClassDef) (name : Name) : EvalError := .duplicateMember name.text cls.name

/-- Refuses a name that is taken; a property name may take further accessors. -/
def ensureUnused (cls : ClassDef) (name : Name) (property : Bool) : Except EvalError Unit :=
  if (cls.field? name).isSome || (cls.procedure? name).isSome
      || (!property && (cls.property? name).isSome) then
    .error (cls.duplicate name)
  else .ok ()

def markDefault (cls : ClassDef) (decl : Procedure) : Except EvalError ClassDef :=
  if decl.isDefault then
    if cls.defaultMember.any (· != decl.name) then .error (cls.duplicate .blank)
    else .ok { cls with defaultMember := some decl.name }
  else .ok cls

def addProcedure (cls : ClassDef) (decl : Procedure) : Except EvalError ClassDef :=
  match decl.kind with
  | .sub | .function => do
    cls.ensureUnused decl.name false
    markDefault { cls with procedures := putName decl.name decl cls.procedures } decl
  | kind => do
    cls.ensureUnused decl.name true
    let group := (cls.property? decl.name).getD {}
    if (group.slot kind).isSome then throw (cls.duplicate decl.name)
    markDefault { cls with properties := putName decl.name (group.put decl) cls.properties } decl

def addMember (cls : ClassDef) : ClassMember → Except EvalError ClassDef
  | .field access decl => do
    cls.ensureUnused decl.name false
    return { cls with fields := putName decl.name ⟨access, decl.dims⟩ cls.fields }
  | .procedure decl => cls.addProcedure decl

def ofDecl (decl : ClassDecl) : Except EvalError ClassDef :=
  decl.members.foldlM addMember { name := decl.name }

end ClassDef
end ServerScript
