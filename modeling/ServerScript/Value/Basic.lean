import ServerScript.Value.Class
import ServerScript.Number.Word

/-! Values of the script language. Scalars are held directly; arrays, dictionaries and instances
are cells of a store and a value only refers to them, so that copies of a value share them. -/
namespace ServerScript

/-- Named texts with a fixed order. A name that occurs again adds to the values of its first
entry. -/
structure Collection where
  /-- The kind that is reported for the collection. -/
  title : String
  entries : List (String × List String) := []
  deriving DecidableEq, Repr, Inhabited, BEq

/-- A reference to a built-in object. Objects that can be obtained more than once carry the
number of the view that was handed out, which tells the references apart. -/
inductive ObjectRef where
  | dictionary (cell : Nat)
  | err
  | collection (view : Nat) (content : Collection)
  | request
  | response
  | server
  | cookies (view : Nat)
  | session (view : Nat)
  | application (view : Nat)
  deriving DecidableEq, Repr, Inhabited, BEq

namespace ObjectRef

def typeName : ObjectRef → String
  | dictionary _ => "Dictionary"
  | err => "ErrObject"
  | collection _ content => content.title
  | request => "IRequest"
  | response => "IResponse"
  | server => "IServer"
  | cookies _ => "IRequestDictionary"
  | session _ => "ISessionObject"
  | application _ => "IApplicationObject"

def same : ObjectRef → ObjectRef → Bool
  | dictionary a, dictionary b => a == b
  | collection a _, collection b _ => a == b
  | cookies a, cookies b => a == b
  | session a, session b => a == b
  | application a, application b => a == b
  | err, err | request, request | response, response | server, server => true
  | _, _ => false

theorem same_refl (o : ObjectRef) : o.same o = true := by cases o <;> simp [same]

theorem same_comm (a b : ObjectRef) : a.same b = b.same a := by
  cases a <;> cases b <;> simp only [same] <;> exact BEq.comm

end ObjectRef

inductive Callable where
  | procedure (decl : Procedure)
  | cls (definition : ClassDef)

def Callable.name : Callable → String
  | .procedure decl => decl.name.text
  | .cls definition => definition.name

inductive Value where
  /-- A variable that was never assigned. -/
  | empty
  | null
  /-- The reference to no object. -/
  | nothing
  | bool (b : Bool)
  | integer (n : Int64)
  | float (x : Float)
  | string (s : String)
  | array (cell : Nat)
  | object (ref : ObjectRef)
  /-- An instance of a class of the script. -/
  | inst (cell : Nat) (cls : ClassDef)
  /-- A stored declaration and the number it was stored under. -/
  | callable (id : Nat) (target : Callable)

instance : Inhabited Value := ⟨.empty⟩

namespace Value

def isEmpty : Value → Bool
  | empty => true
  | _ => false

def isNull : Value → Bool
  | null => true
  | _ => false

/-- Whether the value is an object reference, the one to no object included. -/
def isObject : Value → Bool
  | object _ | inst .. | nothing => true
  | _ => false

def isString : Value → Bool
  | string _ => true
  | _ => false

def isArray : Value → Bool
  | array _ => true
  | _ => false

def typeName : Value → String
  | empty => "Empty"
  | null => "Null"
  | nothing => "Nothing"
  | bool _ => "Boolean"
  | integer n => if Number.fits16 n then "Integer" else "Long"
  | float _ => "Double"
  | string _ => "String"
  | array _ => "Variant()"
  | object ref => ref.typeName
  | inst _ cls => cls.name
  | callable .. => "Object"

def varType : Value → Int64
  | empty => 0
  | null => 1
  | integer n => if Number.fits16 n then 2 else 3
  | float _ => 5
  | string _ => 8
  | nothing | object _ | inst .. | callable .. => 9
  | bool _ => 11
  | array _ => 8204

/-- Identity of references; scalars and declarations have none. -/
def sameReference : Value → Value → Bool
  | nothing, nothing => true
  | object a, object b => a.same b
  | inst a _, inst b _ => a == b
  | array a, array b => a == b
  | _, _ => false

end Value
end ServerScript
