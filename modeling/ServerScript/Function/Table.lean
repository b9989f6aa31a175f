import ServerScript.Function.Dates
import ServerScript.Function.Inspection
import ServerScript.Function.Numbers

/-! All functions by name. The built-in ones come first, so an embedding program cannot replace
them. -/
namespace ServerScript.Function

def builtins : List Builtin :=
  dateFunctions ++ textFunctions ++ numberFunctions ++ inspectionFunctions

def builtin? (name : String) : Option Builtin := builtins.find? (·.name == name)

def native? (natives : List Native) (name : String) : Option Native :=
  natives.find? (·.name == name)

/-- Adds a function of the embedding program under the small form of its name, in place of the one
that was added under it before. -/
def register (natives : List Native) (name : String) (run : List Value → Except Stop Value) :
    List Native :=
  ⟨Text.lower name, run⟩ :: natives.filter (·.name != Text.lower name)

/-- Whether a name in small letters is a function. A function of the embedding program is known
under any case. -/
def isKnown (natives : List Native) (name : String) : Bool :=
  (builtin? name).isSome || (native? natives (Text.lower name)).isSome

def call? (name : String) (args : List Value) : Run (Option Value) := do
  match builtin? name with
  | some f =>
    if f.arity.admits args.length then return some (← f.run args)
    else Run.error (.invalidNumberOfArguments name)
  | none =>
    match native? (← get).natives name with
    | some f => return some (← Run.ofStop (f.run args))
    | none => return none

end ServerScript.Function
