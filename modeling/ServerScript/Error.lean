import ServerScript.Name

/-! What can go wrong while a script runs. An `EvalError` is reported to the script and can be
resumed unless it is fatal; a `Fault` ends the request at once, whatever the script has asked
for. -/
namespace ServerScript

inductive EvalError where
  | divisionByZero
  | subscriptOutOfRange
  | typeMismatch (detail : String)
  | undefinedVariable (name : String)
  | undefinedFunction (name : String)
  | methodNotFound (name : String)
  | memberNotFound (name : String)
  | propertyNotWritable (name : String)
  | classNotDefined (name : String)
  | notAClass (name : String)
  | duplicateMember (name className : String)
  | meOutsideClass
  | withOutsideBlock (name : String)
  | constantAlreadyDefined (name : String)
  | constantShadowsVariable (name : String)
  | assignToConstant (name : String)
  | objectRequired (name : String)
  | notSupported (name : String)
  | invalidNumberOfArguments (name : String)
  | invalidArgument (name : String)
  | duplicateKey (key : String)
  | cannotCreateObject (progId : String)
  | notShareable
  | raised (number : Int64) (origin description : String)
  | recursion (limit : Nat)
  | timeout
  | runtime (detail : String)
  deriving DecidableEq, Repr, Inhabited, BEq

namespace EvalError

def message : EvalError → String
  | divisionByZero => "division by zero"
  | subscriptOutOfRange => "subscript out of range"
  | typeMismatch detail => "type mismatch: " ++ detail
  | undefinedVariable name => "variable '" ++ name ++ "' is undefined"
  | undefinedFunction name => "undefined function '" ++ name ++ "'"
  | methodNotFound name => "method '" ++ name ++ "' not found"
  | memberNotFound name => "member '" ++ name ++ "' not found"
  | propertyNotWritable name => "property '" ++ name ++ "' not found or not writable"
  | classNotDefined name => "class not defined: " ++ name
  | notAClass name => name ++ " is not a class"
  | duplicateMember name className =>
    "member '" ++ name ++ "' is already defined in class '" ++ className ++ "'"
  | meOutsideClass => "invalid use of 'Me' keyword outside of class"
  | withOutsideBlock name => "invalid reference to ." ++ name ++ " outside of With block"
  | constantAlreadyDefined name => "constant '" ++ name ++ "' already defined"
  | constantShadowsVariable name =>
    "cannot define constant with name of existing variable '" ++ name ++ "'"
  | assignToConstant name => "cannot assign to constant '" ++ name ++ "'"
  | objectRequired name => "object required: '" ++ name ++ "'"
  | notSupported name => "object doesn't support this property or method: '" ++ name ++ "'"
  | invalidNumberOfArguments name =>
    "wrong number of arguments or invalid property assignment: '" ++ name ++ "'"
  | invalidArgument name => "invalid procedure call or argument: '" ++ name ++ "'"
  | duplicateKey key => "key '" ++ key ++ "' already exists"
  | cannotCreateObject progId => "cannot create object '" ++ progId ++ "'"
  | notShareable => "object cannot be stored in shared state"
  | raised _ _ description => description
  | recursion limit => "maximum call depth exceeded (" ++ toString limit ++ ")"
  | timeout => "execution timeout exceeded"
  | runtime detail => "runtime error: " ++ detail

def kind : EvalError → String
  | divisionByZero => "DivisionByZero"
  | subscriptOutOfRange => "SubscriptOutOfRange"
  | typeMismatch _ => "TypeMismatch"
  | undefinedVariable _ => "UndefinedVariable"
  | undefinedFunction _ => "UndefinedFunction"
  | methodNotFound _ => "MethodNotFound"
  | memberNotFound _ => "MemberNotFound"
  | propertyNotWritable _ => "PropertyNotWritable"
  | classNotDefined _ => "ClassNotDefined"
  | notAClass _ => "NotAClass"
  | duplicateMember .. => "DuplicateMember"
  | meOutsideClass => "MeOutsideClass"
  | withOutsideBlock _ => "WithOutsideBlock"
  | constantAlreadyDefined _ => "ConstantAlreadyDefined"
  | constantShadowsVariable _ => "ConstantShadowsVariable"
  | assignToConstant _ => "AssignToConstant"
  | objectRequired _ => "ObjectRequired"
  | notSupported _ => "NotSupported"
  | invalidNumberOfArguments _ => "InvalidNumberOfArguments"
  | invalidArgument _ => "InvalidArgument"
  | duplicateKey _ => "DuplicateKey"
  | cannotCreateObject _ => "CannotCreateObject"
  | notShareable => "NotShareable"
  | raised .. => "Raised"
  | recursion _ => "RecursionError"
  | timeout => "Timeout"
  | runtime _ => "Runtime"

def number : EvalError → Int64
  | divisionByZero => 11
  | subscriptOutOfRange => 9
  | typeMismatch _ | undefinedFunction _ => 13
  | undefinedVariable _ => 500
  | methodNotFound _ | memberNotFound _ | propertyNotWritable _ | notSupported _ => 438
  | classNotDefined _ => 506
  | notAClass _ | cannotCreateObject _ => 429
  | duplicateMember .. | constantAlreadyDefined _ | constantShadowsVariable _ => 1041
  | assignToConstant _ => 501
  | meOutsideClass | withOutsideBlock _ | objectRequired _ => 424
  | invalidNumberOfArguments _ => 450
  | invalidArgument _ | notShareable | runtime _ => 5
  | duplicateKey _ => 457
  | raised number _ _ => number
  | recursion _ => 28
  | timeout => 258

def sourceName : EvalError → String
  | raised _ origin _ => origin
  | _ => "Microsoft VBScript runtime error"

/-- Fatal errors end the request even where errors are resumed. -/
def isFatal : EvalError → Bool
  | recursion _ | timeout => true
  | _ => false

end EvalError

inductive Fault where
  | addOverflow
  | subtractOverflow
  | capacityOverflow
  | precisionOutOfRange
  | dateOutOfRange
  | instantOutOfRange
  | native (text : String)
  deriving DecidableEq, Repr, Inhabited, BEq

def Fault.message : Fault → String
  | addOverflow => "attempt to add with overflow"
  | subtractOverflow => "attempt to subtract with overflow"
  | capacityOverflow => "capacity overflow"
  | precisionOutOfRange => "Formatting argument out of range"
  | dateOutOfRange => "`NaiveDate - TimeDelta` overflowed"
  | instantOutOfRange => "overflow when adding duration to instant"
  | native text => text

end ServerScript
