import ServerScript.Proofs.Operators
import ServerScript.Proofs.Walks

/-! The rules of expressions, calls and assignments under a walk. Each rule is judged from what the
interpreter does with the parts of an expression, with invoked procedures and with elements that are
stored. The target of an assignment is evaluated while the value is set aside, and the write
delivers it. -/
namespace ServerScript

variable {ι : Type} {p : Policy} {T : ValueRealm p}

namespace Interpreter

theorem runs_getter {cls : ClassDef} {name : Name} {reach : Reach} {decl : Procedure}
    (found : getter? cls name reach = some decl) : cls.Runs decl := by
  obtain ⟨found, -⟩ := Option.filter_eq_some_iff.mp found
  obtain ⟨group, known, found⟩ := Option.bind_eq_some_iff.mp found
  exact .inr ⟨name, group, known, .inl found⟩

theorem runs_method {cls : ClassDef} {name : Name} {reach : Reach} {decl : Procedure}
    (found : method? cls name reach = some decl) : cls.Runs decl :=
  .inl ⟨name, (Option.filter_eq_some_iff.mp found).1⟩

theorem runs_writer {cls : ClassDef} {name : Name} {set : Bool} {reach : Reach} {decl : Procedure}
    (found : writer? cls name set reach = some decl) : cls.Runs decl := by
  obtain ⟨found, -⟩ := Option.filter_eq_some_iff.mp found
  obtain ⟨group, known, found⟩ := Option.bind_eq_some_iff.mp found
  refine .inr ⟨name, group, known, .inr ?_⟩
  rw [PropertyGroup.writer] at found
  split at found <;>
    simp only [Option.orElse_eq_orElse, Option.orElse_eq_or, Option.or_eq_some_iff] at found
  · exact found.symm.imp_left And.right
  · exact found.imp_right And.right

end Interpreter

theorem Value.IsScalar.simple {v : Value} (scalar : v.IsScalar) : v.Simple := by
  cases v <;> trivial

namespace Operator

theorem simple_unary (op : UnaryOp) (v : Value) : (unary op v).Simple := by
  by_cases null : v = .null
  · rw [unary_eq_null_iff.mpr null]
    trivial
  · exact (scalar_unary null op).simple

theorem simple_binary {mode : CompareMode} {op : BinaryOp} {lhs rhs v : Value}
    (done : binary mode op lhs rhs = .ok v) : v.Simple := by
  rcases binary_cases mode op lhs rhs with ⟨-, null⟩ | ⟨-, -, fails⟩ | ⟨-, -, w, yields, scalar⟩
  · cases null.symm.trans done
    trivial
  · cases fails.symm.trans done
  · cases yields.symm.trans done
    exact scalar.simple

end Operator

def Expr.calleeParts : Expr → List Expr
  | .ident _ | .withMember _ => []
  | .member object _ => [object]
  | other => [other]

/-- The expressions that are evaluated for an expression or an assignment to it. -/
def Expr.parts : Expr → List Expr
  | .unary _ operand => [operand]
  | .binary _ lhs rhs => [lhs, rhs]
  | .call callee args => callee.calleeParts ++ args
  | .member object _ => [object]
  | _ => []

theorem Expr.sizeOf_of_mem_calleeParts {e part : Expr} (member : part ∈ e.calleeParts) :
    sizeOf part ≤ sizeOf e := by
  cases e with
  | ident | withMember => cases member
  | member object name =>
    obtain rfl := List.mem_singleton.mp member
    rw [Expr.member.sizeOf_spec]
    omega
  | _ => exact Nat.le_of_eq (congrArg sizeOf (List.mem_singleton.mp member))

theorem Expr.sizeOf_of_mem_parts {e part : Expr} (member : part ∈ e.parts) :
    sizeOf part < sizeOf e := by
  cases e with
  | call callee args =>
    rw [Expr.call.sizeOf_spec]
    rcases List.mem_append.mp member with member | member
    · have := Expr.sizeOf_of_mem_calleeParts member
      omega
    · have := List.sizeOf_lt_of_mem member
      omega
  | unary op operand =>
    obtain rfl := List.mem_singleton.mp member
    rw [Expr.unary.sizeOf_spec]
    omega
  | binary op lhs rhs =>
    rw [Expr.binary.sizeOf_spec]
    simp only [parts, List.mem_cons, List.not_mem_nil, or_false] at member
    rcases member with rfl | rfl <;> omega
  | member object name =>
    obtain rfl := List.mem_singleton.mp member
    rw [Expr.member.sizeOf_spec]
    omega
  | _ => cases member

/-- Whether a write to an element of a member goes to an element of what the member reads as. -/
def Interpreter.relays (cls : ClassDef) (name : Name) (set : Bool) (reach : Reach) : Bool :=
  fieldInReach cls name reach ||
    ((writer? cls name set reach).isNone && (getter? cls name reach).isSome)

def ClassDef.bounds (cls : ClassDef) : List Expr := cls.fields.flatMap fun f => f.2.dims.getD []

namespace Walk

open Interpreter

variable (J : Walk ι T) {r : T.Reserve} {w : T.World}

theorem resolve (name : Name) :
    J.holds r w (fun w' => Resolved.Satisfies (T.value r w')) fun _ => Run.resolve name := by
  refine J.read (f := fun m => m.scopes.resolve m.heap name) (fun _ _ => rfl) ?_
  intro m w' le supplies
  exact supplies.resolve name

theorem lookup (name : Name) :
    J.holds r w (fun w' found => ∀ v, found = some v → T.value r w' v) fun _ =>
      Run.lookup name := by
  refine J.read (f := fun m => m.scopes.lookup m.heap name) (fun _ _ => rfl) ?_
  intro m w' le supplies v found
  exact supplies.lookup found

theorem withTarget (name : Name) :
    J.holds r w (T.value r) fun _ => Run.withTarget name := by
  refine J.look (fun _ _ => rfl) fun m w' le supplies => ?_
  cases same : m.withStack with
  | nil => exact J.error _
  | cons target rest =>
    have usable := supplies.withStack target (same ▸ List.mem_cons_self)
    exact J.pure fun w'' le' => T.mono usable le'

theorem reachOf (ref : InstanceRef) :
    J.holds r w (fun _ _ => True) fun _ => Run.reachOf ref := by
  refine J.look (fun _ _ => rfl) fun m w' le supplies => ?_
  exact J.done

theorem fieldValue (ref : InstanceRef) (name : Name) :
    J.holds r w (T.value r) fun _ => fieldValue ref name := by
  refine J.read (f := fun m => (m.heap.field? ref.cell name).getD .empty) (fun _ _ => rfl) ?_
  intro m w' le supplies
  cases found : m.heap.field? ref.cell name with
  | none => exact T.empty
  | some v => exact supplies.fields _ _ v found

theorem isVariable (name : Name) : J.holds r w (fun _ _ => True) fun _ => isVariable name := by
  refine J.bind (J.resolve name) fun w' le resolved usable => ?_
  split
  · exact J.done
  · exact J.done
  · exact J.done
  · exact J.look (fun _ _ => rfl) fun m w'' le' supplies => J.done

theorem originOf (e : Expr) : J.holds r w (fun _ _ => True) fun _ => originOf e := by
  cases e with
  | ident name => exact J.forget (J.isVariable name)
  | _ => exact J.done

theorem recursiveTarget? (name : Name) :
    J.holds r w (fun _ found => ∀ decl, found = some decl → p.procedure decl) fun _ =>
      recursiveTarget? name := by
  refine J.look (fun _ _ => rfl) fun m w' le supplies => J.pure fun w'' le' decl found => ?_
  exact supplies.procedure decl (Option.filter_eq_some_iff.mp found).1

variable {J}

theorem of_attempt {Q : T.World → α → Prop} {x : Run α}
    (lasts : ∀ w' w'' a, w' ≤ w'' → Q w' a → Q w'' a)
    (ends : J.holds r w (fun w' => Ends p (Q w')) fun _ => Run.attempt x) :
    J.holds r w Q fun _ => x := by
  have split : x = Run.attempt x >>= Run.ofStop :=
    Run.ext fun m => by rw [Run.exec_bind_ok (Run.exec_attempt _ m), Run.exec_ofStop]
  rw [split]
  refine J.bind ends fun w' le e end' => ?_
  cases e with
  | ok a => exact J.pure fun w'' le' => lasts w' w'' a le' end'
  | error s => exact J.throw end'

theorem orElseMember {Q : T.World → α → Prop} {x : Run α} {y : ι → Run α}
    (lasts : ∀ w' w'' a, w' ≤ w'' → Q w' a → Q w'' a)
    (ends : J.holds r w (fun w' => Ends p (Q w')) fun _ => Run.attempt x)
    (second : ∀ w', w ≤ w' → J.holds r w' Q y) :
    J.holds r w Q fun i => Run.orElseMember x (y i) := by
  refine J.bind ends fun w' le e end' => ?_
  split
  · exact second w' le
  · cases e with
    | ok a => exact J.pure fun w'' le' => lasts w' w'' a le' end'
    | error s => exact J.throw end'

end Walk

namespace ExprWalk

open Interpreter

section

variable (J : ExprWalk ι T) (ev : ι → Interpreter)

def Evaluates (e : Expr) : Prop := ∀ r w, J.holds r w (T.value r) fun i => (ev i).expr e

def Invokes : Prop :=
  ∀ r w decl this values, p.procedure decl → (∀ ref, this = some ref → T.value r w ref.value) →
    (∀ v ∈ values, T.value r w v) →
    J.holds r w (T.invocation r) fun i => (ev i).invoke decl this values

def StoresAt (r r' : T.Reserve) (w : T.World) (index : List Value) (value : Value) (name : Name) :
    Prop :=
  ∀ w' container, w ≤ w' → T.value r' w' container →
    J.delivers r r' w' fun i => (ev i).store container index value name

def Stores : Prop :=
  ∀ r r' w index value name, T.Extends r r' → (∀ v ∈ index, T.value r' w v) →
    T.owned r r' w value → J.StoresAt ev r r' w index value name

def Creates : Prop :=
  ∀ r w cls fields, p.cls cls → fields.map (·.1) = cls.fields.map (·.1) →
    Frame.All (T.value r w) fields →
    J.holds r w (fun w' cell => T.value r w' (.inst cell cls)) fun _ =>
      Run.onHeap (·.allocInstance { fields })

end

variable {J : ExprWalk ι T} {ev : ι → Interpreter} {r r' : T.Reserve} {w : T.World}
  {ref : InstanceRef} {name : Name} {decl : Procedure} {this : Option InstanceRef}
  {index values : List Value} {value : Value} {set : Bool} {reach : Reach} {args : Arguments}

theorem delivers_ite {c : Prop} [Decidable c] {x y : ι → Run α} (yes : c → J.delivers r r' w x)
    (no : ¬c → J.delivers r r' w y) : J.delivers r r' w fun i => if c then x i else y i := by
  by_cases h : c
  · simpa only [if_pos h] using yes h
  · simpa only [if_neg h] using no h

theorem delivers_error (more : T.Extends r r') (e : EvalError) :
    J.delivers r r' w fun _ => (Run.error e : Run α) := J.delivers_of_holds more (J.error e)

theorem StoresAt.mono {w' : T.World} (stores : J.StoresAt ev r r' w index value name)
    (le : w ≤ w') : J.StoresAt ev r r' w' index value name :=
  fun w'' container le' usable => stores w'' container (le_trans le le') usable

theorem current_of_value (on : T.value r w ref.value) (other : InstanceRef)
    (same : some ref = some other) : T.value r w other.value := by
  cases same
  exact on

section

variable (invokes : J.Invokes ev)

include invokes

theorem callWith (allowed : p.procedure decl)
    (current : ∀ ref, this = some ref → T.value r w ref.value)
    (given : ∀ v ∈ values, T.value r w v) :
    J.holds r w (T.invocation r) fun i => callWith (ev i) decl this values := by
  refine J.ite (fun many => J.error _) fun fits => ?_
  exact invokes r w decl this values allowed current given

theorem assignMember (on : T.value r w ref.value) (given : T.value r w value) :
    J.holds r w (fun _ _ => True) fun i => writeMember (ev i) ref name [] value set reach := by
  refine J.bind J.checked fun w' le member _ => ?_
  have on := T.mono on le
  have given := T.mono given le
  refine J.ite (fun field => J.ite (fun _ => ?_) fun filled => absurd rfl filled) fun noField => ?_
  · exact J.effects.setField ref.cell member given
  · cases writer : writer? ref.cls member set reach with
    | some decl =>
      refine J.discard (callWith invokes (T.runs on (runs_writer writer)) (current_of_value on) ?_)
      intro v inside
      exact List.mem_singleton.mp inside ▸ given
    | none =>
      cases getter? ref.cls member reach with
      | none => exact J.error _
      | some decl => exact J.ite (fun _ => J.error _) fun filled => absurd rfl filled

theorem writeMember (more : T.Extends r r') (on : T.value r' w ref.value)
    (indexed : ∀ v ∈ index, T.value r' w v) (owned : T.owned r r' w value)
    (stores : ∀ member, memberName ref.cls name = .ok member → relays ref.cls member set reach →
      index ≠ [] → J.StoresAt ev r r' w index value member) :
    J.delivers r r' w fun i => writeMember (ev i) ref name index value set reach := by
  cases index with
  | nil =>
    refine J.gives more owned fun w' le given => ?_
    exact assignMember invokes (T.mono (T.release more on) le) given
  | cons first rest =>
    refine J.delivers_bind (Q := fun _ member => memberName ref.cls name = .ok member) more
      (J.ofExcept fun member found _ _ => found) fun w₁ le₁ member found => ?_
    have store (relayed : relays ref.cls member set reach) :=
      (stores member found relayed nofun).mono le₁
    refine delivers_ite (fun field => delivers_ite (fun empty => nomatch empty) fun filled => ?_)
      fun noField => ?_
    · refine J.delivers_bind more (J.fieldValue ref member) fun w₂ le₂ container usable => ?_
      exact store (by simp [relays, field]) w₂ container le₂ usable
    · cases writer : writer? ref.cls member set reach with
      | some decl =>
        refine J.gives more (T.owned_mono owned le₁) fun w₂ le₂ given => ?_
        have on := T.mono (T.release more on) (le_trans le₁ le₂)
        have run := T.runs on (runs_writer writer)
        refine J.discard (callWith invokes run (current_of_value on) fun v inside => ?_)
        rcases List.mem_append.mp inside with inside | inside
        · exact T.mono (T.release more (indexed v inside)) (le_trans le₁ le₂)
        · exact List.mem_singleton.mp inside ▸ given
      | none =>
        cases getter : getter? ref.cls member reach with
        | none => exact delivers_error more _
        | some decl =>
          refine delivers_ite (fun empty => nomatch empty) fun filled => ?_
          have on := T.mono on le₁
          have read : J.holds r' w₁ (T.value r') fun i => guardGetter ref member do
              return (← Interpreter.callWith (ev i) decl (some ref) []).value := by
            refine J.guarded (J.map (callWith invokes (T.runs on (runs_getter getter))
              (current_of_value on) nofun) ?_)
            intro w₂ result usable w₃ le₃
            exact T.mono usable.value le₃
          refine J.delivers_bind more read fun w₂ le₂ container usable => ?_
          exact store (by simp [relays, writer, getter]) w₂ container le₂ usable

theorem finishAssign {assigned : Assigned} (target : T.assigned r w assigned)
    (given : T.value r w value) :
    J.holds r w (fun _ _ => True) fun i => finishAssign (ev i) name value set assigned := by
  cases assigned with
  | done => exact J.done
  | accessor ref => exact assignMember invokes target given

theorem assignName (given : T.value r w value) :
    J.holds r w (fun _ _ => True) fun i => assignName (ev i) name value set := by
  refine J.bind (J.assign name given) fun w' le assigned target => ?_
  exact finishAssign invokes target (T.mono given le)

theorem writeBack (given : T.value r w value) :
    J.holds r w (fun _ _ => True) fun i => Interpreter.writeBack (ev i) name value := by
  have split : (Run.assignWith fun scopes h => scopes.writeBack h name value) =
      Run.read (fun m => m.scopes.isConstant name) >>= fun constant =>
        if constant then Pure.pure .done
        else Run.assignWith fun scopes h => scopes.assign h name value := by
    refine Run.ext fun m => ?_
    rw [Run.exec_bind_ok (Run.exec_read _ m)]
    cases constant : m.scopes.isConstant name <;>
      simp only [Run.assignWith, Scopes.writeBack, constant, Run.exec_get_bind, if_true] <;> rfl
  have written : J.holds r w (T.assigned r) fun _ =>
      Run.assignWith fun scopes h => scopes.writeBack h name value := by
    rw [split]
    refine J.bind (Q := fun _ _ => True) (J.read (fun _ _ => rfl) fun _ _ _ _ => trivial)
      fun w' le constant _ => ?_
    exact J.ite (fun _ => J.pure fun _ _ => trivial) fun _ => J.assign name (T.mono given le)
  refine J.bind written fun w' le assigned target => ?_
  exact finishAssign invokes target (T.mono given le)

theorem writeBackAll (params : List Param) (origins : List (Option Name))
    (given : ∀ v ∈ values, T.value r w v) :
    J.holds r w (fun _ _ => True) fun i => writeBackAll (ev i) params origins values := by
  induction params generalizing origins values w with
  | nil => exact J.done
  | cons param params ih =>
    cases origins with
    | nil => exact J.done
    | cons origin origins =>
      cases values with
      | nil => exact J.done
      | cons value values =>
        obtain ⟨first, others⟩ := List.forall_mem_cons.mp given
        cases origin with
        | none => exact ih origins others
        | some name =>
          refine J.ite (fun byRef => ?_) fun byVal => ih origins others
          refine J.bind (writeBack invokes first) fun w' le _ _ => ?_
          exact ih origins (T.monos others le)

theorem callProcedure (allowed : p.procedure decl)
    (current : ∀ ref, this = some ref → T.value r w ref.value)
    (given : ∀ v ∈ args.values, T.value r w v) :
    J.holds r w (T.value r) fun i => callProcedure (ev i) decl this args := by
  refine J.bind (callWith invokes allowed current given) fun w₁ le₁ result usable => ?_
  refine J.bind (writeBackAll invokes _ _ usable.params) fun w₂ le₂ _ _ => ?_
  exact J.pure fun w₃ le₃ => T.mono usable.value (le_trans le₂ le₃)

theorem memberCall? {other : ι → Run Value} (on : T.value r w ref.value)
    (given : ∀ v ∈ args.values, T.value r w v) (otherwise : J.holds r w (T.value r) other) :
    J.holds r w (T.value r) fun i =>
      match memberCall? (ev i) ref name args reach with
      | some act => act
      | none => other i := by
  unfold Interpreter.memberCall?
  cases method : method? ref.cls name reach with
  | some decl =>
    exact callProcedure invokes (T.runs on (runs_method method)) (current_of_value on) given
  | none =>
    cases getter : getter? ref.cls name reach with
    | some decl =>
      refine J.guarded ?_
      exact callProcedure invokes (T.runs on (runs_getter getter)) (current_of_value on) given
    | none => exact otherwise

theorem callDefault (on : T.value r w ref.value) (given : ∀ v ∈ values, T.value r w v) :
    J.holds r w (T.value r) fun i => callDefault (ev i) ref values := by
  refine J.bind J.checked fun w' le name _ => ?_
  exact memberCall? invokes (T.mono on le) (T.monos given le) (J.error _)

omit invokes in
theorem lasts_value (w' w'' : T.World) (v : Value) (le : w' ≤ w'') (usable : T.value r w' v) :
    T.value r w'' v := T.mono usable le

omit invokes in
theorem readsObject (ref : ObjectRef) (name : Name) :
    J.holds r w (T.value r) fun _ => Interpreter.readObject ref name := by
  refine Walk.orElseMember lasts_value (J.effects.readObject ref name.text) fun w' le => ?_
  exact Walk.of_attempt lasts_value (J.effects.callObject ref name.text nofun)

theorem indexValue {target : Value} (container : T.value r w target)
    (given : ∀ v ∈ values, T.value r w v) :
    J.holds r w (T.value r) fun i => indexValue (ev i) target values name := by
  refine J.ite (fun noArgs => J.pure fun w' le => T.mono container le) fun args => ?_
  cases target with
  | array cell =>
    refine J.look (fun _ _ => rfl) fun m w' le supplies => J.pure fun w'' le' => ?_
    cases found :
        (m.heap.array? cell).bind fun a => m.heap.getPath a (values.map Value.toWord) with
    | none => exact T.empty
    | some v =>
      obtain ⟨a, known, found⟩ := Option.bind_eq_some_iff.mp found
      have items := supplies.items cell a known (T.mono container le)
      exact T.mono (supplies.getPath items found) le'
  | object ref => exact Walk.of_attempt lasts_value (J.effects.callObject ref "" given)
  | inst cell cls => exact callDefault invokes container given
  | _ => exact J.error _

theorem readMember (on : T.value r w ref.value) :
    J.holds r w (T.value r) fun i => readMember (ev i) ref name reach := by
  unfold Interpreter.readMember
  cases ref.cls.field? name with
  | some field => exact J.ite (fun _ => J.fieldValue ref name) fun _ => J.error _
  | none =>
    cases getter : getter? ref.cls name reach with
    | some decl =>
      refine J.guarded ?_
      exact callProcedure invokes (T.runs on (runs_getter getter)) (current_of_value on) nofun
    | none =>
      cases method : method? ref.cls name reach with
      | some decl =>
        exact callProcedure invokes (T.runs on (runs_method method)) (current_of_value on) nofun
      | none => exact J.error _

theorem callMember (on : T.value r w ref.value) (given : ∀ v ∈ args.values, T.value r w v) :
    J.holds r w (T.value r) fun i => callMember (ev i) ref name args reach := by
  refine J.bind J.checked fun w₁ le₁ name _ => ?_
  have given := T.monos given le₁
  refine memberCall? invokes (T.mono on le₁) given ?_
  refine J.ite (fun field => ?_) fun noField => J.error _
  refine J.bind (J.fieldValue ref name) fun w₂ le₂ v usable => ?_
  exact indexValue invokes usable (T.monos given le₂)

omit invokes in
theorem dimensions {dims : List Expr} (bounds : ∀ e ∈ dims, J.Evaluates ev e) :
    J.holds r w (fun _ _ => True) fun i => dimensions (ev i) dims := by
  refine J.any (J.mapM (Q := fun _ _ _ => True) (fun _ _ _ _ _ _ => trivial) ?_)
  intro e member w' le
  exact J.forget (bounds e member r w')

omit invokes in
theorem declaredValue {dims : Option (List Expr)} (bounds : ∀ e ∈ dims.getD [], J.Evaluates ev e) :
    J.holds r w (T.value r) fun i => declaredValue (ev i) dims := by
  cases dims with
  | none => exact J.pure fun _ _ => T.empty
  | some dims =>
    refine J.bind (dimensions bounds) fun w' le uppers _ => ?_
    exact J.effects.newDimensions uppers

omit invokes in
theorem fields_of_forall₂ {P : Value → Prop} {declared : List (Name × FieldDef)} {fields : Frame}
    (all : List.Forall₂ (fun c (f : Name × Value) => f.1 = c.1 ∧ P f.2) declared fields) :
    fields.map (·.1) = declared.map (·.1) ∧ Frame.All P fields := by
  induction all with
  | nil => exact ⟨rfl, nofun⟩
  | cons first _ ih =>
    refine ⟨?_, List.forall_mem_cons.mpr ⟨first.2, ih.2⟩⟩
    rw [List.map_cons, List.map_cons, first.1, ih.1]

theorem instantiate (creates : J.Creates)
    (bounds : ∀ cls, p.cls cls → ∀ e ∈ cls.bounds, J.Evaluates ev e) :
    J.holds r w (T.value r) fun i => instantiate (ev i) name := by
  refine J.bind (J.lookup name) fun w₁ le₁ found known => ?_
  split
  next id cls =>
    have allowed : p.cls cls := T.cls_iff.mp (known _ rfl)
    refine J.bind (J.mapM
      (Q := fun w (c : Name × FieldDef) (f : Name × Value) => f.1 = c.1 ∧ T.value r w f.2) ?_ ?_)
      fun w₂ le₂ fields all => ?_
    · intro c w' w'' f le named
      exact named.imp_right fun usable => T.mono usable le
    · intro field member w' le
      refine J.map (declaredValue fun e inside => ?_) fun w'' v usable w₃ le₃ =>
        ⟨rfl, T.mono usable le₃⟩
      exact bounds cls allowed e (List.mem_flatMap.mpr ⟨field, member, inside⟩)
    · obtain ⟨names, usable⟩ := fields_of_forall₂ all
      refine J.bind (creates r w₂ cls fields allowed names usable) fun w₃ le₃ cell on => ?_
      have on : T.value r w₃ (InstanceRef.value ⟨cell, cls⟩) := on
      have finish : ∀ w₄, w₃ ≤ w₄ →
          J.holds r w₄ (T.value r) fun _ => (Pure.pure (.inst cell cls) : Run Value) :=
        fun w₄ le₄ => J.pure fun w₅ le₅ => T.mono on (le_trans le₄ le₅)
      cases startUp : cls.procedure? ⟨"class_initialize"⟩ with
      | none => exact finish w₃ le_rfl
      | some decl =>
        have started : J.holds r w₃ (T.value r) fun i =>
            Interpreter.callProcedure (ev i) decl (some ⟨cell, cls⟩) {} :=
          callProcedure invokes (p.member allowed (.inl ⟨_, startUp⟩)) (current_of_value on) nofun
        exact J.bind (J.discard started) fun w₄ le₄ _ _ => finish w₄ le₄
  · exact J.error _
  · exact J.error _

omit invokes in
theorem arguments {args : List Expr} (evaluates : ∀ e ∈ args, J.Evaluates ev e) :
    J.holds r w (fun w' result => ∀ v ∈ result.values, T.value r w' v) fun i =>
      arguments (ev i) args := by
  induction args generalizing w with
  | nil => exact J.pure fun _ _ => nofun
  | cons e rest ih =>
    obtain ⟨first, others⟩ := List.forall_mem_cons.mp evaluates
    refine J.bind (J.originOf e) fun w₁ le₁ origin _ => ?_
    refine J.bind (first r w₁) fun w₂ le₂ v usable => ?_
    refine J.bind (ih others) fun w₃ le₃ result usables => J.pure fun w₄ le₄ => ?_
    exact List.forall_mem_cons.mpr ⟨T.mono usable (le_trans le₃ le₄), T.monos usables le₄⟩

theorem readName : J.holds r w (T.value r) fun i => readName (ev i) name := by
  refine J.bind (J.resolve name) fun w₁ le₁ resolved usable => ?_
  split
  · exact callProcedure invokes (T.procedure_iff.mp usable) nofun nofun
  · exact J.pure fun w₂ le₂ => T.mono usable le₂
  · exact readMember invokes usable
  · refine J.bind (J.effects.function name.text nofun) fun w₂ le₂ e ends => ?_
    split
    · rename_i found
      cases found with
      | none => exact J.pure fun _ _ => T.empty
      | some v => exact J.pure fun w₃ le₃ => T.mono (ends v rfl) le₃
    · exact J.pure fun _ _ => T.empty
    · exact J.throw ends

theorem callFound {args : List Expr} (evaluates : ∀ e ∈ args, J.Evaluates ev e) :
    J.holds r w (T.value r) fun i => callFound (ev i) name args := by
  refine J.bind (J.resolve name) fun w₁ le₁ resolved usable => ?_
  split
  · refine J.bind (arguments evaluates) fun w₂ le₂ args given => ?_
    exact callProcedure invokes (T.procedure_iff.mp usable) nofun given
  · exact J.error _
  · refine J.bind (arguments evaluates) fun w₂ le₂ args given => ?_
    exact indexValue invokes (T.mono usable le₂) given
  · refine J.bind (arguments evaluates) fun w₂ le₂ args given => ?_
    exact callMember invokes (T.mono usable le₂) given
  · refine J.bind (arguments evaluates) fun w₂ le₂ args given => ?_
    have answers : J.holds r w₂ (fun w' found => ∀ v, found = some v → T.value r w' v) fun _ =>
        Function.call? name.text args.values :=
      Walk.of_attempt (fun w' w'' found le usable v same => T.mono (usable v same) le)
        (J.effects.function name.text given)
    refine J.bind answers fun w₃ le₃ found answer => ?_
    cases found with
    | none => exact J.error _
    | some v => exact J.pure fun w₄ le₄ => T.mono (answer v rfl) le₄

theorem callName {args : List Expr} (evaluates : ∀ e ∈ args, J.Evaluates ev e) :
    J.holds r w (T.value r) fun i => callName (ev i) name args := by
  refine J.ite (fun noArgs => callFound invokes evaluates) fun some => ?_
  refine J.bind (J.recursiveTarget? name) fun w₁ le₁ target allowed => ?_
  cases target with
  | none => exact callFound invokes evaluates
  | some decl =>
    refine J.bind (arguments evaluates) fun w₂ le₂ args given => ?_
    refine J.look (fun _ _ => rfl) fun m w₃ le₃ supplies => ?_
    exact callProcedure invokes (allowed decl rfl) supplies.me (T.monos given le₃)

theorem callOn {target : Value} {args : List Expr} (object : T.value r w target)
    (evaluates : ∀ e ∈ args, J.Evaluates ev e) :
    J.holds r w (T.value r) fun i => callOn (ev i) target name args := by
  cases target with
  | inst cell cls =>
    refine J.bind (arguments evaluates) fun w₁ le₁ args given => ?_
    refine J.bind (J.reachOf ⟨cell, cls⟩) fun w₂ le₂ reach _ => ?_
    have on : T.value r w₂ (InstanceRef.value ⟨cell, cls⟩) := T.mono object (le_trans le₁ le₂)
    exact callMember invokes on (T.monos given le₂)
  | object ref =>
    refine J.bind (arguments evaluates) fun w₁ le₁ args given => ?_
    refine Walk.orElseMember lasts_value (J.effects.callObject ref name.text given) fun w₂ le₂ => ?_
    have read := Walk.of_attempt lasts_value (J.effects.readObject (r := r) (w := w₂) ref name.text)
    refine J.bind read fun w₃ le₃ v usable => ?_
    exact indexValue invokes usable (T.monos given (le_trans le₂ le₃))
  | _ => exact J.error _

theorem readOn {target : Value} (object : T.value r w target) :
    J.holds r w (T.value r) fun i => readOn (ev i) target name := by
  cases target with
  | inst cell cls =>
    refine J.bind (J.reachOf ⟨cell, cls⟩) fun w' le reach _ => ?_
    have on : T.value r w' (InstanceRef.value ⟨cell, cls⟩) := T.mono object le
    exact readMember invokes on
  | object ref => exact readsObject ref name
  | _ => exact J.error _

theorem evalCall {callee : Expr} {args : List Expr}
    (evaluates : ∀ e ∈ callee.calleeParts ++ args, J.Evaluates ev e) :
    J.holds r w (T.value r) fun i => evalCall (ev i) callee args := by
  obtain ⟨first, others⟩ := List.forall_mem_append.mp evaluates
  have indexed (whole : J.Evaluates ev callee) : J.holds r w (T.value r) (fun i => do
      let target ← (ev i).expr callee
      let given ← Interpreter.arguments (ev i) args
      Interpreter.indexValue (ev i) target given.values .blank) := by
    refine J.bind (whole r w) fun w₁ le₁ target container => ?_
    refine J.bind (arguments others) fun w₂ le₂ args given => ?_
    exact indexValue invokes (T.mono container le₂) given
  cases callee with
  | ident name => exact callName invokes others
  | member object name =>
    refine J.bind (first object List.mem_cons_self r w) fun w' le target usable => ?_
    exact callOn invokes usable others
  | withMember name =>
    refine J.bind (J.withTarget name) fun w' le target usable => ?_
    exact callOn invokes usable others
  | _ => exact indexed (first _ List.mem_cons_self)

omit invokes in
theorem literalValue (l : Literal) : (Interpreter.literalValue l).Simple := by
  cases l <;> trivial

/-- An expression is evaluated under a walk if its parts are, and with them the bounds of every class
that may be instantiated. -/
theorem evalExpr {e : Expr} (evaluates : ∀ part ∈ e.parts, J.Evaluates ev part)
    (creates : J.Creates)
    (bounds : ∀ name, e = .new name → ∀ cls, p.cls cls → ∀ d ∈ cls.bounds, J.Evaluates ev d) :
    J.holds r w (T.value r) fun i => evalExpr (ev i) e := by
  cases e with
  | literal l => exact J.pure fun _ _ => T.simple (literalValue l)
  | ident name => exact readName invokes
  | me =>
    refine J.look (fun _ _ => rfl) fun m w' le supplies => ?_
    cases isMe : m.scopes.me with
    | none => exact J.error _
    | some ref => exact J.pure fun w'' le' => T.mono (supplies.me ref isMe) le'
  | unary op operand =>
    refine J.map (evaluates operand List.mem_cons_self r w) fun w' v usable w'' le => ?_
    exact T.simple (Operator.simple_unary op v)
  | binary op lhs rhs =>
    refine J.bind (evaluates lhs List.mem_cons_self r w) fun w₁ le₁ a _ => ?_
    refine J.bind (evaluates rhs (List.mem_cons_of_mem _ List.mem_cons_self) r w₁)
      fun w₂ le₂ b _ => ?_
    refine J.look (fun _ _ => rfl) fun m w₃ le₃ supplies => J.ofExcept fun v done w₄ le₄ => ?_
    exact T.simple (Operator.simple_binary done)
  | call callee args => exact evalCall invokes evaluates
  | member object name =>
    refine J.bind (evaluates object List.mem_cons_self r w) fun w' le target usable => ?_
    exact readOn invokes usable
  | withMember name =>
    refine J.bind (J.withTarget name) fun w' le target usable => ?_
    exact readOn invokes usable
  | new name => exact instantiate invokes creates (bounds name rfl)
  | missing => exact J.pure fun _ _ => T.empty

/-- An element of a value is delivered under a walk. Only an instance whose default member relays the
write stores an element of another value. -/
theorem storeElement {container : Value} (inPlace : ∀ cell, container = .array cell → p.inPlace)
    (more : T.Extends r r') (target : T.value r' w container)
    (indexed : ∀ v ∈ index, T.value r' w v) (owned : T.owned r r' w value)
    (stores : ∀ cell cls member, container = .inst cell cls → memberName cls .blank = .ok member →
      relays cls member false .outside → J.StoresAt ev r r' w index value member) :
    J.delivers r r' w fun i => storeElement (ev i) container index value name := by
  cases container with
  | array cell =>
    refine J.delivers_then (J.effects.setPath _ (inPlace cell rfl) more target owned)
      fun w' le written => ?_
    exact J.ite (fun _ => J.error _) fun _ => J.done
  | object ref =>
    refine J.gives more owned fun w' le given => ?_
    refine J.effects.writeItem ref (fun v member => ?_) given
    exact T.release more (T.mono (indexed v member) le)
  | inst cell cls =>
    have on : T.value r' w (InstanceRef.value ⟨cell, cls⟩) := target
    refine writeMember invokes more on indexed owned ?_
    exact fun member found relayed _ => stores cell cls member rfl found relayed
  | _ => exact delivers_error more _

section

variable (stores : J.Stores ev)

include stores

theorem assignOn {target : Value} (more : T.Extends r r') (object : T.value r' w target)
    (indexed : ∀ v ∈ index, T.value r' w v) (owned : T.owned r r' w value) :
    J.delivers r r' w fun i => assignOn (ev i) target name index value set := by
  cases target with
  | inst cell cls =>
    refine J.delivers_bind more (J.reachOf ⟨cell, cls⟩) fun w' le reach _ => ?_
    have indexed := T.monos indexed le
    have owned := T.owned_mono owned le
    have on : T.value r' w' (InstanceRef.value ⟨cell, cls⟩) := T.mono object le
    refine writeMember invokes more on indexed owned ?_
    exact fun member _ _ _ => stores r r' w' index value member more indexed owned
  | object ref =>
    refine delivers_ite (fun plain => ?_) fun filled => ?_
    · exact J.gives more owned fun w' le given => J.effects.writeObject ref name.text given
    · refine J.delivers_bind more (readsObject ref name) fun w' le container usable => ?_
      exact stores r r' w index value name more indexed owned w' container le usable
  | _ => exact delivers_error more _

theorem assignIndexed (more : T.Extends r r') (indexed : ∀ v ∈ index, T.value r' w v)
    (owned : T.owned r r' w value) :
    J.delivers r r' w fun i => assignIndexed (ev i) name index value set := by
  refine J.delivers_bind more (J.resolve name) fun w' le resolved usable => ?_
  cases resolved with
  | value container =>
    exact stores r r' w index value name more indexed owned w' container le usable
  | member ref =>
    have indexed := T.monos indexed le
    have owned := T.owned_mono owned le
    refine writeMember invokes more usable indexed owned ?_
    exact fun member _ _ _ => stores r r' w' index value member more indexed owned
  | missing => exact delivers_error more _

theorem assignTo {target : Expr} (evaluates : ∀ part ∈ target.parts, J.Evaluates ev part)
    (more : T.Extends r r') (owned : T.owned r r' w value) :
    J.delivers r r' w fun i => assignTo (ev i) target value set := by
  cases target with
  | ident name => exact J.gives more owned fun w' le given => assignName invokes given
  | call callee index =>
    obtain ⟨first, others⟩ := List.forall_mem_append.mp evaluates
    refine J.delivers_bind more (arguments others) fun w₁ le₁ index indexed => ?_
    have owned := T.owned_mono owned le₁
    cases callee with
    | ident name => exact assignIndexed invokes stores more indexed owned
    | member object name =>
      refine J.delivers_bind more (first object List.mem_cons_self r' w₁)
        fun w₂ le₂ object usable => ?_
      exact assignOn invokes stores more usable (T.monos indexed le₂) (T.owned_mono owned le₂)
    | withMember name =>
      refine J.delivers_bind more (J.withTarget name) fun w₂ le₂ object usable => ?_
      exact assignOn invokes stores more usable (T.monos indexed le₂) (T.owned_mono owned le₂)
    | _ =>
      refine J.delivers_bind more (first _ List.mem_cons_self r' w₁)
        fun w₂ le₂ container usable => ?_
      exact stores r r' w₁ _ value .blank more indexed owned w₂ container le₂ usable
  | member object name =>
    refine J.delivers_bind more (evaluates object List.mem_cons_self r' w)
      fun w' le object usable => ?_
    exact assignOn invokes stores more usable nofun (T.owned_mono owned le)
  | withMember name =>
    refine J.delivers_bind more (J.withTarget name) fun w' le object usable => ?_
    exact assignOn invokes stores more usable nofun (T.owned_mono owned le)
  | _ => exact delivers_error more _

theorem execAssign {target e : Expr} (evaluates : ∀ part ∈ e :: target.parts, J.Evaluates ev part) :
    J.holds r w (fun _ _ => True) fun i => execAssign (ev i) target e set := by
  obtain ⟨first, others⟩ := List.forall_mem_cons.mp evaluates
  refine J.bind (first r w) fun w₁ le₁ v usable => ?_
  cases set with
  | true =>
    simp only [assignedValue, if_true]
    have taken : J.holds r w₁ (fun w' u => T.owned r r w' u) fun _ =>
        if v.isObject then Pure.pure v else Run.error (.objectRequired target.targetName) := by
      refine J.ite (fun object => J.pure fun w₂ le₂ => ?_) fun _ => J.error _
      exact T.owned_of_isObject object (T.mono usable le₂)
    refine J.bind taken fun w₂ le₂ u owned => ?_
    exact J.holds_of_delivers (assignTo invokes stores others (T.extends_refl r) owned)
  | false =>
    refine J.setsAside usable fun r' w₂ u le₂ more owned => ?_
    exact assignTo invokes stores others more owned

end
end
end ExprWalk
end ServerScript
