import ServerScript.Proofs.ArrayCopies
import ServerScript.Proofs.CopyOut
import ServerScript.Proofs.Shapes

/-! Private members. From outside of an instance, a name that has no member open to everyone is
refused by every form of access. What the access names besides, its arguments, index and value, is
evaluated as ever; nothing of the instance is run or changed. Nor does any access give an instance
a field that its class does not declare. -/
namespace ServerScript

/-- Whatever a class has under a name is for its instances only. -/
structure ClassDef.Conceals (c : ClassDef) (name : Name) : Prop where
  field : ∀ f, c.field? name = some f → f.access = .instanceOnly
  procedure : ∀ decl, c.procedure? name = some decl → decl.access = .instanceOnly
  accessor : ∀ group kind decl, c.property? name = some group → group.slot kind = some decl →
    decl.access = .instanceOnly

/-- The code that runs does not belong to the instance. -/
def Machine.Outside (m : Machine) (o : InstanceRef) : Prop :=
  ∀ i, m.scopes.me = some i → i.cell ≠ o.cell

theorem Reach.not_outside_allows {access : Access} (concealed : access = .instanceOnly) :
    Reach.outside.allows access = false := by
  subst concealed
  rfl

namespace ClassDef.Conceals

variable {c : ClassDef} {name : Name}

theorem not_fieldInReach (conceals : c.Conceals name) :
    Interpreter.fieldInReach c name .outside = false := by
  rw [Interpreter.fieldInReach, Option.any_eq_false]
  intro field found
  simp [Reach.not_outside_allows (conceals.field field found)]

theorem method?_eq_none (conceals : c.Conceals name) :
    Interpreter.method? c name .outside = none := by
  rw [Interpreter.method?, Option.filter_eq_none_iff]
  intro decl found
  simp [Reach.not_outside_allows (conceals.procedure decl found)]

theorem getter?_eq_none (conceals : c.Conceals name) :
    Interpreter.getter? c name .outside = none := by
  rw [Interpreter.getter?, Option.filter_eq_none_iff]
  intro decl found
  obtain ⟨group, known, get⟩ := Option.bind_eq_some_iff.mp found
  simp [Reach.not_outside_allows (conceals.accessor group .propertyGet decl known get)]

theorem writer?_eq_none (conceals : c.Conceals name) (set : Bool) :
    Interpreter.writer? c name set .outside = none := by
  rw [Interpreter.writer?, Option.filter_eq_none_iff]
  intro decl found
  obtain ⟨group, known, writer⟩ := Option.bind_eq_some_iff.mp found
  have accessor : group.slot .propertyLet = some decl ∨ group.slot .propertySet = some decl := by
    rw [PropertyGroup.slot, PropertyGroup.slot]
    cases set
    all_goals
      simp only [PropertyGroup.writer, Option.orElse_eq_orElse, Option.orElse_eq_or, reduceIte,
        Bool.false_eq_true, Option.or_eq_some_iff] at writer
      tauto
  rcases accessor with letWriter | setWriter
  · simp [Reach.not_outside_allows (conceals.accessor group _ decl known letWriter)]
  · simp [Reach.not_outside_allows (conceals.accessor group _ decl known setWriter)]

end ClassDef.Conceals

namespace Interpreter

variable {o : InstanceRef} {name : Name} {m : Machine}

theorem memberName_of_not_blank (cls : ClassDef) (spelled : name.isBlank = false) :
    Run.ofExcept (memberName cls name) = pure name := by
  rw [memberName, spelled, if_neg Bool.false_ne_true]
  rfl

theorem readMember_of_conceals (ev : Interpreter) (conceals : o.cls.Conceals name) :
    readMember ev o name .outside = Run.error (.memberNotFound name.text) := by
  rw [readMember, conceals.getter?_eq_none, conceals.method?_eq_none]
  cases found : o.cls.field? name with
  | none => rfl
  | some field =>
    dsimp only
    rw [Reach.not_outside_allows (conceals.field field found), if_neg Bool.false_ne_true]

theorem callMember_of_conceals (ev : Interpreter) (conceals : o.cls.Conceals name)
    (spelled : name.isBlank = false) (args : Arguments) :
    callMember ev o name args .outside = Run.error (.methodNotFound name.text) := by
  rw [callMember, memberName_of_not_blank o.cls spelled, pure_bind, memberCall?,
    conceals.method?_eq_none, conceals.getter?_eq_none]
  dsimp only [Option.map_none]
  rw [conceals.not_fieldInReach, if_neg Bool.false_ne_true]

theorem writeMember_of_conceals (ev : Interpreter) (conceals : o.cls.Conceals name)
    (spelled : name.isBlank = false) (index : List Value) (value : Value) (set : Bool) :
    writeMember ev o name index value set .outside =
      Run.error (.propertyNotWritable name.text) := by
  rw [writeMember, memberName_of_not_blank o.cls spelled, pure_bind, conceals.not_fieldInReach,
    if_neg Bool.false_ne_true, conceals.writer?_eq_none, conceals.getter?_eq_none]

theorem exec_reachOf_of_outside (outside : m.Outside o) :
    (Run.reachOf o).exec m = (.ok .outside, m) := by
  have other : m.scopes.me.any (·.cell == o.cell) = false := by
    rw [Option.any_eq_false]
    intro i isMe
    simpa using outside i isMe
  rw [Run.reachOf, Run.exec_get_bind, other, if_neg Bool.false_ne_true]
  rfl

theorem exec_readOn_of_outside (ev : Interpreter) (outside : m.Outside o) :
    (readOn ev o.value name).exec m = (readMember ev o name .outside).exec m := by
  rw [InstanceRef.value, readOn, Run.exec_bind_ok (exec_reachOf_of_outside outside)]

theorem exec_callOn_of_outside (k : Nat) (outside : m.Outside o) (args : List Expr) :
    (callOn (within k) o.value name args).exec m =
      (arguments (within k) args >>= fun given =>
        callMember (within k) o name given .outside).exec m := by
  rw [InstanceRef.value, callOn]
  refine Run.exec_bind_congr fun given m' done => ?_
  have keeps := keepsVariables_arguments k args m
  rw [done] at keeps
  have still : m'.Outside o := fun i isMe => outside i (keeps.me ▸ isMe)
  rw [Run.exec_bind_ok (exec_reachOf_of_outside still)]

theorem exec_assignOn_of_outside (ev : Interpreter) (outside : m.Outside o) (index : List Value)
    (value : Value) (set : Bool) :
    (assignOn ev o.value name index value set).exec m =
      (writeMember ev o name index value set .outside).exec m := by
  rw [InstanceRef.value, assignOn, Run.exec_bind_ok (exec_reachOf_of_outside outside)]

end Interpreter

/-- The expression of a member, of an object or of the target of the innermost `With` block. -/
def Expr.memberOf : Option Expr → Name → Expr
  | some object, name => .member object name
  | none, name => .withMember name

namespace Interpreter

def objectOf (ev : Interpreter) : Option Expr → Name → Run Value
  | some object, _ => ev.expr object
  | none, name => Run.withTarget name

/-- The value that an assignment stores, from its expression. -/
def evalAssigned (ev : Interpreter) (target e : Expr) (set : Bool) : Run Value := do
  assignedValue target (← ev.expr e) set

variable {name : Name}

theorem evalExpr_memberOf (ev : Interpreter) (object : Option Expr) :
    evalExpr ev (.memberOf object name) =
      objectOf ev object name >>= fun target => readOn ev target name := by
  cases object <;> rfl

theorem evalExpr_call_memberOf (ev : Interpreter) (object : Option Expr) (args : List Expr) :
    evalExpr ev (.call (.memberOf object name) args) =
      objectOf ev object name >>= fun target => callOn ev target name args := by
  cases object <;> rfl

theorem execCall_memberOf (ev : Interpreter) (object : Option Expr) :
    execCall ev (.memberOf object name) =
      objectOf ev object name >>= fun target =>
        (discard (callOn ev target name []) : Run Unit) := by
  cases object <;> rfl

theorem assignTo_memberOf (ev : Interpreter) (object : Option Expr) (v : Value) (set : Bool) :
    assignTo ev (.memberOf object name) v set =
      objectOf ev object name >>= fun target => assignOn ev target name [] v set := by
  cases object <;> rfl

theorem assignTo_call_memberOf (ev : Interpreter) (object : Option Expr) (index : List Expr)
    (v : Value) (set : Bool) :
    assignTo ev (.call (.memberOf object name) index) v set =
      arguments ev index >>= fun given => objectOf ev object name >>= fun target =>
        assignOn ev target name given.values v set := by
  cases object <;> rfl

theorem execAssign_eq (ev : Interpreter) (target e : Expr) (set : Bool) :
    execAssign ev target e set =
      evalAssigned ev target e set >>= fun v => assignTo ev target v set := by
  rw [execAssign, evalAssigned, bind_assoc]

variable {m : Machine}

theorem keepsVariables_objectOf (k : Nat) (object : Option Expr) (name : Name) (m : Machine) :
    m.KeepsVariables ((objectOf (within k) object name).exec m).2 := by
  cases object with
  | some e => exact keepsVariables_expr k e m
  | none =>
    have holds : (variableRegime.expr []).holds Policy.any.value fun _ => Run.withTarget name :=
      (variableRegime.expr []).walk.withTarget (r := ()) (w := ()) name
    exact (holds m trivial).step

theorem keepsVariables_evalAssigned (k : Nat) (target e : Expr) (set : Bool) (m : Machine) :
    m.KeepsVariables ((evalAssigned (within k) target e set).exec m).2 := by
  have assigned (v : Value) : (variableRegime.expr []).holds (fun _ => True) fun _ =>
      assignedValue target v set := by
    cases set with
    | true =>
      simp only [assignedValue, if_true]
      exact Judgement.ite _ (fun object => Judgement.pure _ trivial) fun other => Judgement.error _ _
    | false =>
      have copies := (variableRegime.expr []).world (.deepCopy (Policy.any_value v))
      exact Judgement.weaken _ copies fun _ _ => trivial
  have holds := (variableRegime.expr []).bind ((variableRegime.sound_within k []).expr e)
    fun v _ => assigned v
  exact (holds m trivial).step

end Interpreter

open Interpreter in
/-- Every form of access to a member of an instance fails once the rest of it is evaluated, in the
state that this evaluation leaves. -/
structure Machine.Refuses (m : Machine) (k : Nat) (o : InstanceRef) (name : Name) : Prop where
  read : ∀ object m₁, ((within k).objectOf object name).exec m = (.ok o.value, m₁) →
    ((within k).evalExpr (.memberOf object name)).exec m =
      (.error (.error (.memberNotFound name.text)), m₁)
  call : ∀ object args m₁, ((within k).objectOf object name).exec m = (.ok o.value, m₁) →
    ((within k).evalExpr (.call (.memberOf object name) args)).exec m =
      Run.exec (do
        let _ ← (within k).arguments args
        Run.error (.methodNotFound name.text)) m₁
  callStatement : ∀ object m₁, ((within k).objectOf object name).exec m = (.ok o.value, m₁) →
    ((within k).execCall (.memberOf object name)).exec m =
      (.error (.error (.methodNotFound name.text)), m₁)
  assign : ∀ object e set v m₁ m₂,
    ((within k).evalAssigned (.memberOf object name) e set).exec m = (.ok v, m₁) →
    ((within k).objectOf object name).exec m₁ = (.ok o.value, m₂) →
    ((within k).execAssign (.memberOf object name) e set).exec m =
      (.error (.error (.propertyNotWritable name.text)), m₂)
  assignElement : ∀ object index e set v given m₁ m₂ m₃,
    ((within k).evalAssigned (.call (.memberOf object name) index) e set).exec m = (.ok v, m₁) →
    ((within k).arguments index).exec m₁ = (.ok given, m₂) →
    ((within k).objectOf object name).exec m₂ = (.ok o.value, m₃) →
    ((within k).execAssign (.call (.memberOf object name) index) e set).exec m =
      (.error (.error (.propertyNotWritable name.text)), m₃)

namespace Machine

variable {m m' : Machine} {o : InstanceRef} {name : Name}

theorem Outside.of_keepsVariables (outside : m.Outside o) (keeps : m.KeepsVariables m') :
    m'.Outside o := by
  intro i isMe
  apply outside i
  rw [← keeps.me]
  exact isMe

open Interpreter in
theorem Outside.refuses (outside : m.Outside o) (conceals : o.cls.Conceals name)
    (spelled : name.isBlank = false) (k : Nat) : m.Refuses k o name := by
  -- The evaluation of the object leaves the code that runs where it is.
  have object_outside {m m₁ : Machine} (outside : m.Outside o) (object : Option Expr)
      (found : ((within k).objectOf object name).exec m = (.ok o.value, m₁)) : m₁.Outside o := by
    have keeps := keepsVariables_objectOf k object name m
    rw [found] at keeps
    exact outside.of_keepsVariables keeps
  refine ⟨fun object m₁ found => ?_, fun object args m₁ found => ?_, fun object m₁ found => ?_,
    fun object e set v m₁ m₂ value found => ?_,
    fun object index e set v given m₁ m₂ m₃ value indexed found => ?_⟩
  case refine_1 =>
    rw [evalExpr_memberOf, Run.exec_bind_ok found,
      exec_readOn_of_outside _ (object_outside outside object found),
      readMember_of_conceals _ conceals]
    rfl
  case refine_2 =>
    rw [evalExpr_call_memberOf, Run.exec_bind_ok found,
      exec_callOn_of_outside k (object_outside outside object found)]
    simp only [callMember_of_conceals _ conceals spelled]
  case refine_3 =>
    rw [execCall_memberOf, Run.exec_bind_ok found, Run.discard_eq, Run.exec_bind,
      exec_callOn_of_outside k (object_outside outside object found)]
    simp only [callMember_of_conceals _ conceals spelled]
    rfl
  case refine_4 =>
    have keeps := keepsVariables_evalAssigned k (.memberOf object name) e set m
    rw [value] at keeps
    have still := object_outside (outside.of_keepsVariables keeps) object found
    rw [execAssign_eq, Run.exec_bind_ok value, assignTo_memberOf, Run.exec_bind_ok found,
      exec_assignOn_of_outside _ still, writeMember_of_conceals _ conceals spelled]
    rfl
  case refine_5 =>
    have keeps := keepsVariables_evalAssigned k (.call (.memberOf object name) index) e set m
    rw [value] at keeps
    have evaluates := keepsVariables_arguments k index m₁
    rw [indexed] at evaluates
    have still :=
      object_outside ((outside.of_keepsVariables keeps).of_keepsVariables evaluates) object found
    rw [execAssign_eq, Run.exec_bind_ok value, assignTo_call_memberOf, Run.exec_bind_ok indexed,
      Run.exec_bind_ok found, exec_assignOn_of_outside _ still,
      writeMember_of_conceals _ conceals spelled]
    rfl

inductive RefersTo (m : Machine) : InstanceRef → Prop where
  | me {i} (isMe : m.scopes.me = some i) : m.RefersTo i
  | held {i} (holds : m.Holds i.value) : m.RefersTo i
  | element {i cell a} (found : m.heap.array? cell = some a) (member : i.value ∈ a.items) :
    m.RefersTo i

theorem Carries.value_of_holds {p : Policy} {v : Value} (carries : m.Carries p)
    (holds : m.Holds v) : p.value v := by
  cases holds with
  | localVariable frame entry => exact (carries.scopes.frames _ frame).1 _ entry
  | localConstant frame entry => exact (carries.scopes.frames _ frame).2 _ entry
  | global entry => exact carries.scopes.globals _ entry
  | constant entry => exact carries.scopes.constants _ entry
  | field found entry => exact carries.heap.instances _ _ found _ entry
  | key found entry => exact (carries.heap.dictionaries _ _ found _ entry).1
  | item found entry => exact (carries.heap.dictionaries _ _ found _ entry).2
  | target entry => exact carries.withStack _ entry

theorem Shaped.shapes (shaped : m.Shaped) (refers : m.RefersTo o) :
    m.heap.Shapes o.cell o.cls := by
  cases refers with
  | me isMe => exact shaped.scopes.me o isMe
  | held holds => exact shaped.value_of_holds holds
  | element found member => exact shaped.heap.arrays _ _ found _ member

end Machine

/-- Private members are unreachable from outside, and no instance has other fields than those of
its class. In every state that a run goes through, each form of access to an instance by code that
is not its own fails for a name that has no member open to everyone, and leaves the state as the
evaluation of its arguments, index and value does. Every instance that such a state refers to, or
that an expression evaluates to there, is stored with exactly the fields that its class declares. -/
theorem private_members_unreachable {m₀ m : Machine} {n : Nat} {program : Block}
    (shaped : m₀.Shaped) (visits : Script.Visits n program m₀ m) :
    (∀ o name, m.Outside o → o.cls.Conceals name → name.isBlank = false →
      ∀ k, m.Refuses k o name) ∧
    (∀ o, m.RefersTo o → m.heap.Shapes o.cell o.cls) ∧
    ∀ k e (o : InstanceRef) m', ((Interpreter.within k).expr e).exec m = (.ok o.value, m') →
      m'.heap.Shapes o.cell o.cls := by
  have shaped := visits.shaped shaped
  refine ⟨fun o name outside conceals spelled => outside.refuses conceals spelled,
    fun o => shaped.shapes, fun k e o m' done => ?_⟩
  have agree := (shaping_upkeep.sound_within k).expr e () _ m shaped (.refl _)
  have result := agree.result o.value
  rw [done] at result
  exact result rfl

theorem SelfAssignment.shaped_start : start.Shaped := Host.shaped_machine _ _ nofun

namespace Gauge

def level : Name := ⟨"level"⟩

def g : Name := ⟨"g"⟩

/-- `Class Gauge: Private level: End Class`, then `Set g = New Gauge`. -/
def block : Block :=
  [⟨.classDef ⟨"Gauge", [.field .instanceOnly { name := level }]⟩, {}⟩,
    ⟨.assign (.ident g) (.new ⟨"gauge"⟩) true, {}⟩]

def gauge : InstanceRef := ⟨0, { name := "Gauge", fields := [(level, ⟨.instanceOnly, none⟩)] }⟩

def made : Machine :=
  { SelfAssignment.start with
    scopes := { SelfAssignment.start.scopes with
      globals := SelfAssignment.start.scopes.globals ++
        [(⟨"gauge"⟩, .callable 2 (.cls gauge.cls)), (g, gauge.value)] }
    heap := { instances := #[{ fields := [(level, .empty)] }], nextView := 3 }
    control := { elapsed := 2 } }

theorem visits_made : Script.Visits 5 block SelfAssignment.start made := by
  have ran : (Script.runWithin 5 block).exec SelfAssignment.start = (.ok .normal, made) := rfl
  have visits := Script.visits_runWithin 5 block SelfAssignment.start
  rwa [ran] at visits

theorem conceals_level : gauge.cls.Conceals level where
  field f found := by cases found; rfl
  procedure decl found := by cases found
  accessor group kind decl found := by cases found

end Gauge

open Gauge in
theorem gauge_keeps_its_level :
    SelfAssignment.start.Shaped ∧ Script.Visits 5 block SelfAssignment.start made ∧
      ((Interpreter.within 3).evalExpr (.member (.ident g) level)).exec made =
        (.error (.error (.memberNotFound "level")), made) ∧
      ((Interpreter.within 3).execAssign (.member (.ident g) level) (.literal (.integer 7))
        false).exec made = (.error (.error (.propertyNotWritable "level")), made) ∧
      made.heap.Shapes gauge.cell gauge.cls := by
  have shaped := SelfAssignment.shaped_start
  obtain ⟨refuses, shapes, -⟩ := private_members_unreachable shaped visits_made
  have refused := refuses gauge level nofun conceals_level rfl 3
  have stored : (g, gauge.value) ∈ made.scopes.globals :=
    List.mem_append_right _ (List.mem_cons_of_mem _ List.mem_cons_self)
  refine ⟨shaped, visits_made, ?_, ?_, shapes gauge (.held (.global stored))⟩
  · exact refused.read (some (.ident g)) made rfl
  · exact refused.assign (some (.ident g)) (.literal (.integer 7)) false (.integer 7) made made rfl
      rfl

end ServerScript
