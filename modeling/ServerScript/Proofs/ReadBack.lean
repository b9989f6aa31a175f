import ServerScript.Proofs.ArrayCopies
import ServerScript.Proofs.ConstantTables
import ServerScript.Proofs.Locals

/-! What a read finds after a definition. A definition looks for a constant in the place that it
defines in, and nowhere else; a read looks for a constant in all frames and outside of procedures
before it looks at any variable. So a constant of a caller, or one outside of procedures, hides a
variable or a parameter that was defined without complaint. -/
namespace ServerScript

namespace Scopes

variable {s s' outer : Scopes} {h : Heap} {name x : Name} {v w : Value} {names : List Name}

/-- What a read finds right after a name was defined: a constant in reach, or else the value;
outside of procedures a member of the current instance stands in front of it. -/
def readBack (s : Scopes) (h : Heap) (name : Name) (v : Value) : Resolved :=
  match s.constant? name with
  | some c => .value c
  | none => if s.frames.isEmpty then (s.member? h name).getD (.value v) else .value v

theorem resolve_of_constant (bound : s.constant? name = some v) : s.resolve h name = .value v := by
  simp [resolve, bound]

theorem resolve_of_frame (free : s.constant? name = none)
    (found : s.frameVariable? name = some v) : s.resolve h name = .value v := by
  simp [resolve, free, found]

theorem constant?_define (done : s.define name v = .ok s') (x : Name) :
    s'.constant? x = s.constant? x := by
  obtain ⟨scope, rest, first, rfl⟩ | ⟨-, rfl⟩ := define_cases done
  · simp only [constant?, first, List.findSome?_cons]
  · rfl

theorem local?_define (done : s.define name v = .ok s') (x : Name) :
    s'.local? x = if x = name then some v else s.local? x := by
  obtain ⟨scope, rest, first, rfl⟩ | ⟨outside, rfl⟩ := define_cases done
  · simp only [local?, first, lookupName_putName]
  · simp only [local?, outside, setGlobal, global?, lookupName_putName]

theorem resolve_define (done : s.define name v = .ok s') :
    s'.resolve h name = s.readBack h name v := by
  have constants := constant?_define done name
  rw [readBack]
  cases bound : s.constant? name with
  | some c => exact resolve_of_constant (constants.trans bound)
  | none =>
    have free : s'.constant? name = none := constants.trans bound
    obtain ⟨scope, rest, first, rfl⟩ | ⟨outside, rfl⟩ := define_cases done
    · have found : lookupName name (putName name v scope.locals) = some v := by
        simp [lookupName_putName]
      simp [resolve_of_frame free (v := v) (by simp [frameVariable?, found]), first]
    · have stored : (s.setGlobal name v).global? name = some v := by
        simp [global?, setGlobal, lookupName_putName]
      have noFrame : (s.setGlobal name v).frameVariable? name = none := by
        simp [frameVariable?, setGlobal, outside]
      have member : (s.setGlobal name v).member? h name = s.member? h name := rfl
      simp only [resolve, free, noFrame, member, stored, outside, List.isEmpty_nil, if_true]
      cases s.member? h name <;> rfl

theorem local?_declare (done : s.declare name v = .ok s') (known : s.local? x = some w) :
    s'.local? x = some w := by
  rw [declare] at done
  split at done
  · cases done
    exact known
  · rename_i missing
    have other : x ≠ name := by
      rintro rfl
      simp [known] at missing
    simpa [local?_define done, other] using known

theorem Opens.resolve (opens : s.Opens outer names) (found : s.local? x = some w) :
    s.resolve h x = .value ((outer.constant? x).getD w) := by
  obtain ⟨scope, frames, empty, -⟩ := opens.frames
  have constants : s.constant? x = outer.constant? x := by
    simp [constant?, frames, empty, opens.constants, lookupName]
  cases bound : outer.constant? x with
  | some c => exact resolve_of_constant (constants.trans bound)
  | none =>
    refine resolve_of_frame (constants.trans bound) ?_
    rw [local?, frames] at found
    simp [frameVariable?, frames, found]

end Scopes

theorem Heap.Mirrors.of_keeps {h g h' : Heap} {v w : Value} (mirrors : g.Mirrors h' v w)
    (keeps : h.Keeps g) (closed : h.Closed) (valid : v.Within 0 h.arrays.size) :
    h.Mirrors h' v w := by
  induction mirrors with
  | @array c c' a a' source copy lower size items ih =>
    have source : h.array? c = some a := (keeps.old c valid.2).symm.trans source
    refine .array source copy lower size fun i v v' first second => ih i v v' first second ?_
    cases v with
    | array d => exact ⟨Nat.zero_le _, closed c d ⟨a, source, Array.mem_of_getElem? first⟩⟩
    | _ => trivial
  | other none => exact .other none

/-- What a parameter gets for an argument: the argument, or a copy of it. -/
def Machine.Delivers (m m' : Machine) (param : Param) (v w : Value) : Prop :=
  if param.byVal then m.heap.Mirrors m'.heap v w else w = v

namespace Machine.Grounded

variable {m m' : Machine} {scope : Scope} {rest : List Scope} {param : Param} {params : List Param}
  {values : List Value} (grounded : m.Grounded) (valid : ∀ v ∈ values, v.Within 0 m.cells)

include grounded valid

theorem delivers_first (frames : m.scopes.frames = scope :: rest) (free : scope.constants = [])
    (last : ∀ later ∈ params, later.name ≠ param.name)
    (done : (Interpreter.bindParams (param :: params) values).exec m = (.ok ⟨⟩, m')) :
    ∃ w, m'.scopes.local? param.name = some w ∧ m.Delivers m' param (values.headD .empty) w := by
  by_cases byVal : param.byVal
  · obtain ⟨w, found, separate, -⟩ := grounded.bindsCopy valid frames free byVal last done
    exact ⟨w, found, by simpa [Machine.Delivers, byVal] using separate.mirrors⟩
  · rw [Interpreter.exec_bindParams_cons param params values frames free] at done
    have given : Interpreter.given param m.heap (values.headD .empty) =
        (m.heap, values.headD .empty) := if_neg byVal
    obtain ⟨_, bindings, bound⟩ := Interpreter.bound_bindParams grounded.closed grounded.acyclic
      (m := Interpreter.withParam m scope rest param (values.headD .empty)) params
      (fun v member => valid v (List.mem_of_mem_tail member))
      (by rw [Interpreter.withParam, given]; exact .refl _) rfl free
    obtain rfl := (Prod.mk.inj (done.symm.trans bindings)).2
    refine ⟨values.headD .empty, ?_, by simp [Machine.Delivers, byVal]⟩
    rw [bound.others _ last, Interpreter.local?_withParam frames, if_pos rfl, given]

theorem delivers {i : Nat} (found : params[i]? = some param)
    (frames : m.scopes.frames = scope :: rest) (free : scope.constants = [])
    (last : ∀ later ∈ params.drop (i + 1), later.name ≠ param.name)
    (done : (Interpreter.bindParams params values).exec m = (.ok ⟨⟩, m')) :
    ∃ w, m'.scopes.local? param.name = some w ∧ m.Delivers m' param (values.getD i .empty) w := by
  obtain ⟨before, first, keeps, after, later, ⟨scope, frames, free⟩, remaining⟩ :=
    grounded.bindParams_at valid found frames free done
  obtain ⟨w, known, delivers⟩ := after.delivers_first later frames free last remaining
  have argument : (values.drop i).headD .empty = values.getD i .empty := by
    rw [List.headD_eq_head?_getD, List.head?_drop, ← List.getD_eq_getElem?_getD]
  rw [argument] at delivers
  refine ⟨w, known, ?_⟩
  by_cases byVal : param.byVal
  · simp only [Machine.Delivers, byVal, if_true] at delivers ⊢
    refine delivers.of_keeps keeps grounded.closed ?_
    rw [← argument]
    exact Interpreter.headD_of_forall trivial fun v member => valid v (List.mem_of_mem_drop member)
  · simpa [Machine.Delivers, byVal] using delivers

end Machine.Grounded

namespace Interpreter

variable {m m' : Machine} {x : Name} {w : Value}

theorem local?_declareAll {scalars : List Name} {r : Except Stop PUnit}
    (done : (scalars.forM fun name => Run.modifyScopes (·.declare name .empty)).exec m = (r, m'))
    (known : m.scopes.local? x = some w) :
    m'.scopes.local? x = some w ∧ m'.heap = m.heap := by
  induction scalars generalizing m with
  | nil =>
    cases done
    exact ⟨known, rfl⟩
  | cons name scalars ih =>
    rw [List.forM_eq_forM, List.forM_cons] at done
    cases declared : m.scopes.declare name .empty with
    | ok s' =>
      rw [Run.exec_bind_ok (exec_modifyScopes declared)] at done
      exact ih (m := { m with scopes := s' }) done (Scopes.local?_declare declared known)
    | error e =>
      have failed : (Run.modifyScopes (·.declare name .empty)).exec m = (.error (.error e), m) := by
        rw [Run.modifyScopes, Run.exec_get_bind, declared]
        rfl
      rw [Run.exec_bind_error failed] at done
      cases done
      exact ⟨known, rfl⟩

theorem delivers_openFrame {decl : Procedure} {this : Option InstanceRef} {values : List Value}
    {i : Nat} {param : Param} (grounded : m.Grounded) (valid : ∀ v ∈ values, v.Within 0 m.cells)
    (found : decl.params[i]? = some param)
    (last : ∀ later ∈ decl.params.drop (i + 1), later.name ≠ param.name)
    (other : decl.kind.returnsValue = true → decl.name ≠ param.name)
    (opened : (openFrame decl values).exec (enter decl this m) = (.ok ⟨⟩, m')) :
    ∃ w, m'.scopes.local? param.name = some w ∧ m.Delivers m' param (values.getD i .empty) w := by
  have entered := (grounded.secures_self.enter decl this).grounded
  have frame : (enter decl this m).scopes.Opens m.scopes [] := ⟨⟨{}, rfl, rfl, nofun⟩, rfl, rfl⟩
  obtain ⟨bound, done, opens⟩ := exec_bindParams decl.params values frame
  obtain ⟨w, known, delivers⟩ := entered.delivers valid found rfl rfl last done
  rw [openFrame, Run.exec_bind_ok done] at opened
  cases returns : decl.kind.returnsValue with
  | false =>
    simp only [returns, Bool.false_eq_true, if_false] at opened
    obtain ⟨known, heap⟩ := local?_declareAll opened known
    exact ⟨w, known, by rw [Machine.Delivers, heap]; exact delivers⟩
  | true =>
    simp only [returns, if_true] at opened
    obtain ⟨s, defined, -⟩ := opens.define decl.name .empty
    rw [Run.exec_bind_ok (exec_modifyScopes defined)] at opened
    have known : s.local? param.name = some w := by
      simpa [Scopes.local?_define defined, (other returns).symm] using known
    obtain ⟨known, heap⟩ := local?_declareAll opened known
    exact ⟨w, known, by rw [Machine.Delivers, heap]; exact delivers⟩

end Interpreter

/-- What is read after a definition. A definition that succeeds is read back as its value exactly
if no constant of the name is in reach, in whatever frame or outside of procedures, and if, outside
of procedures, the current instance has no member of the name; otherwise the read finds the
constant or the member. A frame of a call is always opened, and when its body starts, a parameter
is read as its argument, or as a copy of it if it is by value, unless a caller or the place outside
of procedures has a constant of the name, which is read instead. -/
theorem definition_read_back (m : Machine) :
    (∀ (s' : Scopes) (h : Heap) (x : Name) (v : Value), m.scopes.define x v = .ok s' →
      s'.resolve h x = m.scopes.readBack h x v) ∧
    ∀ (decl : Procedure) (this : Option InstanceRef) (values : List Value),
      ∃ m', (Interpreter.openFrame decl values).exec (Interpreter.enter decl this m) =
          (.ok ⟨⟩, m') ∧
        (m.callDepth < m.callLimit → ∀ ev : Interpreter,
          ev.Issues (.invoke decl this values) m (.block decl.body) m') ∧
        (m.Grounded → (∀ v ∈ values, v.Within 0 m.cells) →
          ∀ i param, decl.params[i]? = some param →
            (∀ later ∈ decl.params.drop (i + 1), later.name ≠ param.name) →
            (decl.kind.returnsValue = true → decl.name ≠ param.name) →
            ∃ w, m.Delivers m' param (values.getD i .empty) w ∧
              m'.scopes.resolve m'.heap param.name =
                .value ((m.scopes.constant? param.name).getD w)) := by
  refine ⟨fun s' h x v done => Scopes.resolve_define done, fun decl this values => ?_⟩
  obtain ⟨m', opened, opens⟩ := Interpreter.exec_openFrame decl this values m
  refine ⟨m', opened, fun room ev => ev.issues_body room opened, ?_⟩
  intro grounded valid i param found last other
  obtain ⟨w, known, delivers⟩ :=
    Interpreter.delivers_openFrame grounded valid found last other opened
  exact ⟨w, delivers, opens.resolve known⟩

namespace HiddenParameter

def k : Name := ⟨"k"⟩

def r : Name := ⟨"r"⟩

/-- `Sub f(k): r = k: End Sub`. -/
def decl : Procedure :=
  ⟨⟨"f"⟩, .sub, .everyone, false, [{ name := k }], [⟨.assign (.ident r) (.ident k) false, {}⟩]⟩

/-- `Const k = 1`. -/
def constant : Block := [⟨.constants [⟨k, .literal (.integer 1)⟩], {}⟩]

/-- The state in which the body of `f 5` starts after the constant. -/
def body : Except Stop Unit × Machine :=
  (Interpreter.openFrame decl [.integer 5]).exec
    (Interpreter.enter decl none ((Script.runWithin 3 constant).exec {}).2)

end HiddenParameter

open HiddenParameter in
theorem parameter_read_back :
    ((({} : Scopes).push.define k (.integer 5)).toOption.map (·.resolve {} k)) =
        some (.value (.integer 5)) ∧
      SelfAssignment.start.Grounded ∧
      ∃ m', (Interpreter.openFrame decl [.integer 5]).exec
          (Interpreter.enter decl none SelfAssignment.start) = (.ok ⟨⟩, m') ∧
        m'.scopes.resolve m'.heap k = .value (.integer 5) := by
  have grounded : SelfAssignment.start.Grounded := Host.grounded_machine _ _ nofun
  obtain ⟨defined, -⟩ := definition_read_back { scopes := ({} : Scopes).push }
  refine ⟨congrArg some (defined _ {} k (.integer 5) rfl), grounded, ?_⟩
  obtain ⟨-, called⟩ := definition_read_back SelfAssignment.start
  obtain ⟨m', opened, -, reads⟩ := called decl none [.integer 5]
  obtain ⟨w, delivers, read⟩ := reads grounded (by simp [Value.Within]) 0 { name := k } rfl nofun
    nofun
  obtain rfl : w = .integer 5 := delivers
  exact ⟨m', opened, read⟩

open HiddenParameter in
/-- A constant outside of procedures is read in place of a variable of the innermost frame, and in
place of a parameter. -/
theorem constant_hides_parameter :
    ((({} : Scopes).after [.constant k (.integer 1), .push]).define k
        (.integer 5)).toOption.map (·.resolve {} k) = some (.value (.integer 1)) ∧
      body.1 = .ok ⟨⟩ ∧ body.2.scopes.local? k = some (.integer 5) ∧
      body.2.scopes.resolve body.2.heap k = .value (.integer 1) :=
  ⟨rfl, rfl, rfl, rfl⟩

end ServerScript
