import ServerScript.Proofs.Computation

/-! Code that values carry. An instance carries its class and a stored declaration carries a
procedure or a class, so running a script can only run code that some value of its state carries.
A policy says which code that may be, and whether arrays may be written in place. `Carries` states
that a store, the names in reach or a whole state keep to a policy, and `Heap.Advances` that a
change of the store does, while no property read is entered or left. -/
namespace ServerScript

def Value.CodeSatisfies (procedure : Procedure → Prop) (inst : Nat → ClassDef → Prop)
    (cls : ClassDef → Prop) : Value → Prop
  | .inst cell c => inst cell c
  | .callable _ (.procedure decl) => procedure decl
  | .callable _ (.cls c) => cls c
  | _ => True

def ClassDef.Runs (c : ClassDef) (decl : Procedure) : Prop :=
  (∃ name, c.procedure? name = some decl) ∨
    ∃ name group, c.property? name = some group ∧
      (group.get = some decl ∨ group.letWriter = some decl ∨ group.setWriter = some decl)

structure Policy where
  procedure : Procedure → Prop
  cls : ClassDef → Prop
  /-- The functions that the embedding program may supply. -/
  native : Native → Prop
  /-- Whether computations may reach the bound on their steps. -/
  exhausts : Prop
  /-- Whether arrays that exist may be written. -/
  inPlace : Prop := True
  /-- The instances that values may refer to, each with its class. -/
  inst : Nat → ClassDef → Prop := fun _ c => cls c
  allowed : ∀ {cell c}, inst cell c → cls c := by exact id
  member : ∀ {c decl}, cls c → c.Runs decl → procedure decl
  answer : ∀ {f args v}, native f → (∀ a ∈ args, Value.CodeSatisfies procedure inst cls a) →
    f.run args = .ok v → v.CodeSatisfies procedure inst cls
  steady : ∀ {f args}, native f → f.run args = .error .exhausted → exhausts

theorem Value.codeSatisfies_of_all {procedure : Procedure → Prop} {inst : Nat → ClassDef → Prop}
    {cls : ClassDef → Prop} (procedures : ∀ decl, procedure decl)
    (instances : ∀ cell c, inst cell c) (classes : ∀ c, cls c) (v : Value) :
    v.CodeSatisfies procedure inst cls := by
  cases v with
  | inst cell c => exact instances cell c
  | callable id target =>
    cases target with
    | procedure decl => exact procedures decl
    | cls c => exact classes c
  | _ => trivial

def Policy.value (p : Policy) : Value → Prop := Value.CodeSatisfies p.procedure p.inst p.cls

def Policy.any : Policy where
  procedure _ := True
  cls _ := True
  native _ := True
  exhausts := True
  member _ _ := trivial
  answer _ _ _ :=
    Value.codeSatisfies_of_all (fun _ => trivial) (fun _ _ => trivial) (fun _ => trivial) _
  steady _ _ := trivial

/-- Values that are neither instances nor declarations carry no code at all. -/
def Value.Plain (v : Value) : Prop :=
  v.CodeSatisfies (fun _ => False) (fun _ _ => False) (fun _ => False)

variable {p : Policy}

theorem Value.Plain.codeSatisfies {procedure : Procedure → Prop} {inst : Nat → ClassDef → Prop}
    {cls : ClassDef → Prop} {v : Value} (plain : v.Plain) :
    v.CodeSatisfies procedure inst cls := by
  cases v with
  | inst cell c => exact plain.elim
  | callable id target => cases target <;> exact plain.elim
  | _ => trivial

@[simp] theorem Policy.any_value (v : Value) : Policy.any.value v :=
  Value.codeSatisfies_of_all (fun _ => trivial) (fun _ _ => trivial) (fun _ => trivial) v

def ArrayCell.Carries (p : Policy) (a : ArrayCell) : Prop := ∀ v ∈ a.items, p.value v

def Frame.Carries (p : Policy) (f : Frame) : Prop := ∀ e ∈ f, p.value e.2

def Dictionary.Carries (p : Policy) (d : Dictionary) : Prop :=
  ∀ e ∈ d.entries, p.value e.1 ∧ p.value e.2

structure Heap.Carries (p : Policy) (h : Heap) : Prop where
  arrays : ∀ cell a, h.array? cell = some a → a.Carries p
  instances : ∀ cell c, h.instance? cell = some c → Frame.Carries p c.fields
  dictionaries : ∀ (cell : Nat) (d : Dictionary), h.dictionaries[cell]? = some d → d.Carries p

structure Scopes.Carries (p : Policy) (s : Scopes) : Prop where
  frames : ∀ scope ∈ s.frames, Frame.Carries p scope.locals ∧ Frame.Carries p scope.constants
  globals : Frame.Carries p s.globals
  constants : Frame.Carries p s.constants
  me : ∀ i, s.me = some i → p.inst i.cell i.cls

structure Machine.Carries (p : Policy) (m : Machine) : Prop where
  scopes : m.scopes.Carries p
  heap : m.heap.Carries p
  withStack : ∀ v ∈ m.withStack, p.value v
  procedure : ∀ decl, m.procedure = some decl → p.procedure decl
  natives : ∀ f ∈ m.natives, p.native f

theorem Heap.carries_any (h : Heap) : h.Carries .any := by
  refine ⟨fun _ _ _ v _ => ?_, fun _ _ _ e _ => ?_, fun _ _ _ e _ => ⟨?_, ?_⟩⟩
  all_goals exact Policy.any_value _

theorem Machine.carries_any (m : Machine) : m.Carries .any := by
  have names : ∀ vars : Frame, vars.Carries .any := fun vars e _ => Policy.any_value e.2
  refine ⟨⟨fun scope _ => ⟨names _, names _⟩, names _, names _, fun _ _ => trivial⟩,
    m.heap.carries_any, fun v _ => Policy.any_value v, fun _ _ => trivial, fun _ _ => trivial⟩

def Heap.running (h : Heap) (cell : Nat) : List Name :=
  ((h.instance? cell).map (·.running)).getD []

/-- Instances stay, and they have the same fields, whatever their values. -/
def Heap.KeepsFields (h h' : Heap) : Prop :=
  ∀ cell c, h.instance? cell = some c →
    ∃ c', h'.instance? cell = some c' ∧ c'.fields.map (·.1) = c.fields.map (·.1)

namespace Heap.KeepsFields

theorem of_instances {h h' : Heap} (same : h'.instances = h.instances) : h.KeepsFields h' := by
  intro cell c found
  refine ⟨c, ?_, rfl⟩
  rw [instance?, same]
  exact found

theorem refl (h : Heap) : h.KeepsFields h := of_instances rfl

theorem trans {h h' h'' : Heap} (first : h.KeepsFields h') (second : h'.KeepsFields h'') :
    h.KeepsFields h'' := by
  intro cell c found
  obtain ⟨c', found, same⟩ := first cell c found
  obtain ⟨c'', found, same'⟩ := second cell c' found
  exact ⟨c'', found, same'.trans same⟩

end Heap.KeepsFields

/-- A change of the store that keeps to a policy and leaves running property reads alone. -/
structure Heap.Advances (p : Policy) (h h' : Heap) : Prop where
  quiet : ∀ cell, h'.running cell = h.running cell
  carries : h.Carries p → h'.Carries p
  arrays : ¬p.inPlace → ∀ cell a, h.array? cell = some a → h'.array? cell = some a
  fields : h.KeepsFields h'

namespace Heap.Advances

theorem refl (h : Heap) : h.Advances p h := ⟨fun _ => rfl, id, fun _ _ _ => id, .refl h⟩

theorem trans {h h' h'' : Heap} (first : h.Advances p h') (second : h'.Advances p h'') :
    h.Advances p h'' := by
  refine ⟨fun cell => ?_, second.carries ∘ first.carries, fun calm cell a => ?_,
    first.fields.trans second.fields⟩
  · exact (second.quiet cell).trans (first.quiet cell)
  · exact second.arrays calm cell a ∘ first.arrays calm cell a

end Heap.Advances
end ServerScript
