import ServerScript.Proofs.Slots

/-! By-reference parameters. A call hands the final value of such a parameter back to the variable
that the argument was read from. The variable is looked up again by its name after the call, and it
is found in the slot where it was before: a call keeps the slots of its caller. A call of a default
member knows values only and hands nothing back. -/
namespace ServerScript

open Interpreter

def Value.isCallable : Value → Bool
  | .callable .. => true
  | _ => false

/-- A name that stands for a variable in a slot and not for a declaration, or that stands for
nothing and is no function either. -/
structure Machine.Passes (m : Machine) (name : Name) (slot : Slot) : Prop where
  denotes : m.slot? name = some slot
  value : ∀ v, m.stored name slot = some v → v.isCallable = false
  missing : m.stored name slot = none → Function.isKnown m.natives name.text = false

def Slot.inner : Slot → Slot
  | .frame index => .frame (index + 1)
  | slot => slot

def handed (name : Name) : List Param → List (Option Name) → List Value → Option Value
  | param :: params, origin :: origins, v :: values =>
    (handed name params origins values).or
      (if origin = some name ∧ param.byVal = false then some v else none)
  | _, _, _ => none

/-- One of the parameters is by reference, was read from a variable and has a final value. -/
structure Hands (params : List Param) (origins : List (Option Name)) (values : List Value)
    (name : Name) (i : Nat) (v : Value) : Prop where
  byRef : ∃ param, params[i]? = some param ∧ param.byVal = false
  origin : origins[i]? = some (some name)
  final : values[i]? = some v

section

variable {m m' : Machine} {name : Name} {slot : Slot} {v : Value} {params : List Param}
  {origins : List (Option Name)} {values : List Value}

end

def Resolved.isVariable (natives : List Native) (name : Name) : Resolved → Bool
  | .value v => !v.isCallable
  | .member _ => false
  | .missing => !Function.isKnown natives name.text

section

variable {ev : Interpreter} {exprs : List Expr} {m m' : Machine} {args : Arguments} {i : Nat}
  {name : Name}

end

/-- The ways in which a procedure is run on evaluated arguments: as such, or as the read of a
property, which is marked as running. -/
def callAs (ev : Interpreter) (read : Option (InstanceRef × Name)) (decl : Procedure)
    (this : Option InstanceRef) (args : Arguments) : Run Value :=
  match read with
  | none => callProcedure ev decl this args
  | some (i, name) => guardGetter i name (callProcedure ev decl this args)

/-- Whether the procedure is run at all: a property is not read while it is being read. -/
def Machine.admits (m : Machine) : Option (InstanceRef × Name) → Bool
  | none => true
  | some (i, name) => m.startsGetter i.cell name

section

variable {n : Nat} {m m' : Machine}

theorem keepsVariables_expr (n : Nat) (e : Expr) (m : Machine) :
    m.KeepsVariables (((within n).expr e).exec m).2 := by
  have sound := variableRegime.sound_within n []
  exact (sound.expr e m trivial).step

theorem keepsVariables_arguments (n : Nat) (exprs : List Expr) (m : Machine) :
    m.KeepsVariables ((arguments (within n) exprs).exec m).2 := by
  have evaluates : ∀ e ∈ exprs, (variableRegime.expr []).Evaluates (fun _ => within n) e :=
    fun e _ => (variableRegime.sound_within n []).expr e
  exact ((variableRegime.expr []).holds_arguments evaluates m trivial).step

/-- An argument is read from a variable, and its parameter is by reference. -/
structure HandsBack (ev : Interpreter) (decl : Procedure) (exprs : List Expr) (m : Machine)
    (i : Nat) (name : Name) (slot : Slot) : Prop where
  argument : exprs[i]? = some (.ident name)
  /-- The name stands for a variable when the arguments ahead of it have been evaluated. -/
  passes : ∃ front m', (arguments ev (exprs.take i)).exec m = (.ok front, m') ∧ m'.Passes name slot
  byRef : ∃ param, decl.params[i]? = some param ∧ param.byVal = false

section

variable {decl : Procedure} {exprs : List Expr} {args : Arguments} {m₀ : Machine} {name : Name}
  {slot : Slot} {i : Nat}

theorem keepsVariables_take (n : Nat) {front : Arguments} {m₁ : Machine}
    (ahead : ((within n).arguments (exprs.take i)).exec m₀ = (.ok front, m₁)) :
    m₀.KeepsVariables m₁ := by
  have keeps := keepsVariables_arguments n (exprs.take i) m₀
  rwa [ahead] at keeps

theorem HandsBack.denotes (hands : HandsBack (within n) decl exprs m₀ i name slot)
    (me : m₀.MeExists) : m₀.slot? name = some slot := by
  obtain ⟨front, m₁, ahead, passes⟩ := hands.passes
  rw [← (keepsVariables_take n ahead).slot? me]
  exact passes.denotes

end

end

namespace Reassigning

def a : Name := ⟨"a"⟩

def b : Name := ⟨"b"⟩

def c : Name := ⟨"c"⟩

def x : Name := ⟨"x"⟩

def y : Name := ⟨"y"⟩

def o : Name := ⟨"o"⟩

/-- `name = n`. -/
def assign (name : Name) (n : Int64) : Stmt :=
  ⟨.assign (.ident name) (.literal (.integer n)) false, {}⟩

/-- `Public Default Function change(a, b, ByVal c)`, which assigns all of its parameters. -/
def change : Procedure :=
  ⟨⟨"change"⟩, .function, .everyone, true,
    [{ name := a }, { name := b }, { name := c, byVal := true }],
    [assign a 10, assign b 20, assign c 30]⟩

def cls : ClassDef :=
  { name := "Changer", procedures := [(change.name, change)], defaultMember := some change.name }

def start : Machine where
  scopes := { globals := [(o, .inst 0 cls), (x, .integer 1), (y, .integer 2)], constants := [] }
  heap := { instances := #[{}] }

/-- The arguments of `o.change(x, x, y)` and of `o(x, x, y)`. -/
def exprs : List Expr := [.ident x, .ident x, .ident y]

def args : Arguments := ⟨[.integer 1, .integer 1, .integer 2], [some x, some x, some y]⟩

def called : Except Stop Value × Machine :=
  (callAs (within 5) none change (some ⟨0, cls⟩) args).exec start

end Reassigning

end ServerScript
