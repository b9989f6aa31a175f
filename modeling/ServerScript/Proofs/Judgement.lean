import ServerScript.Proofs.Builtins
import ServerScript.Proofs.Statements
import Mathlib.Order.Basic

/-! Judgements on families of computations. A judgement is closed under sequencing and holds of
every computation on the store and the world outside; the rules of expressions and statements add
one closure property for each kind of step that touches names, running property reads, `With`
blocks or the error mode. Whatever is closed in this way holds of the whole interpreter, since a
judgement is a walk with a single world: frame discipline, independence of the limit on calls and
termination are three such judgements. A family has one member for each run that is compared, or
for each bound on the steps. -/
namespace ServerScript

structure Judgement (ι : Type) (p : Policy) where
  holds : {α : Type} → (α → Prop) → (ι → Run α) → Prop
  bind : ∀ {α β : Type} {Q : α → Prop} {R : β → Prop} {x : ι → Run α} {f : ι → α → Run β},
    holds Q x → (∀ a, Q a → holds R fun i => f i a) → holds R fun i => x i >>= f i
  world : ∀ {α : Type} {Q : α → Prop} {act : Run α}, act.Worldly p Q → holds Q fun _ => act

/-- A judgement that is closed under the steps of expressions. -/
structure ExprJudgement (ι : Type) (p : Policy) extends Judgement ι p where
  assign : ∀ {name : Name} {v : Value}, p.value v →
    holds p.assigned fun _ => Run.assignWith fun scopes h => scopes.assign h name v
  guarded : ∀ {ref : InstanceRef} {name : Name} {x : ι → Run Value}, holds p.value x →
    holds p.value fun i => Interpreter.guardGetter ref name (x i)

/-- A judgement that is closed under the steps that the different kinds of statements take. -/
structure StmtJudgement (ι : Type) (p : Policy) extends Judgement ι p where
  exprs : ExprJudgement ι p
  /-- The names that may be declared. -/
  declares : Name → Prop
  /-- The error modes that may be chosen; errors are resumed or not. -/
  modes : Bool → Prop
  lift : ∀ {α : Type} {Q : α → Prop} {x : ι → Run α}, exprs.holds Q x → holds Q x
  define : ∀ {name : Name} {v : Value}, declares name → p.value v →
    holds (fun _ => True) fun _ => Run.modifyScopes (·.define name v)
  constant : ∀ {name : Name} {v : Value}, p.value v →
    holds (fun _ => True) fun _ => Run.modifyScopes (·.setConstant name v)
  extend : ∀ {name : Name} {v : Value}, p.value v →
    holds (fun _ => True) fun _ => Run.extend name v
  inside : ∀ {α : Type} {x : ι → Run α} {target : Value}, p.value target →
    holds (fun _ => True) x → holds (fun _ => True) fun i => Run.inside target (x i)
  errorMode : ∀ {resumeNext : Bool}, modes resumeNext →
    holds (fun _ => True) fun _ => Run.setErrorMode resumeNext
  compareMode : ∀ {mode : CompareMode}, holds (fun _ => True) fun _ => Run.setCompareMode mode

/-- A judgement that is also closed under what a statement does with its errors. -/
structure BlockJudgement (ι : Type) (p : Policy) extends StmtJudgement ι p where
  settle : ∀ {α : Type} {x : ι → Run α} {range : Range}, holds (fun _ => True) x →
    holds (fun _ => True) fun i => Interpreter.settle range (x i)

variable {ι : Type} {p : Policy}

namespace Judgement

variable (J : Judgement ι p) {Q : α → Prop} {R : β → Prop} {x y : ι → Run α}

theorem pure {a : α} (result : Q a) : J.holds Q fun _ => Pure.pure a := J.world (.pure result)

theorem error (e : EvalError) : J.holds Q fun _ => Run.error e := J.world (.error e)

theorem map {f : α → β} (holds : J.holds Q x) (results : ∀ a, Q a → R (f a)) :
    J.holds R fun i => x i >>= fun a => Pure.pure (f a) :=
  J.bind holds fun a result => J.pure (results a result)

theorem weaken {Q' : α → Prop} (holds : J.holds Q x) (implies : ∀ a, Q a → Q' a) :
    J.holds Q' x := by
  have same := J.map (f := id) holds implies
  simpa only [id, bind_pure] using same

theorem ite {c : Prop} [Decidable c] (yes : c → J.holds Q x) (no : ¬c → J.holds Q y) :
    J.holds Q fun i => if c then x i else y i := by
  by_cases h : c
  · simpa only [if_pos h] using yes h
  · simpa only [if_neg h] using no h

theorem look {f : ι → Machine → Run β}
    (blind : ∀ m limit, (fun i => f i (m.withLimit limit)) = fun i => f i m)
    (next : ∀ m, m.Carries p → J.holds R fun i => f i m) : J.holds R fun i => get >>= f i :=
  J.bind (x := fun _ => Run.read fun m i => f i m) (Q := fun g => J.holds R g)
    (J.world (.read blind next)) fun _ holds => holds

theorem forM {items : List γ} {f : ι → γ → Run PUnit}
    (each : ∀ c ∈ items, J.holds (fun _ => True) fun i => f i c) :
    J.holds (fun _ => True) fun i => items.forM (f i) := by
  induction items with
  | nil => exact J.pure trivial
  | cons c rest ih =>
    exact J.bind (each c List.mem_cons_self) fun _ _ =>
      ih fun d member => each d (List.mem_cons_of_mem c member)

end Judgement

def Policy.realm (p : Policy) : ValueRealm p where
  Reserve := Unit
  World := Unit
  order.le _ _ := True
  order.lt _ _ := False
  order.le_refl _ := trivial
  order.le_trans _ _ _ _ _ := trivial
  order.lt_iff_le_not_ge _ _ := by simp
  Extends _ _ := True
  state _ m := m.Carries p
  world _ := ⟨⟩
  value _ _ := p.value
  owned _ _ _ := p.value
  supplies carries :=
    ⟨carries.scopes.all, carries.scopes.me, fun _ _ _ found => carries.heap.field found,
      fun c a found _ => carries.heap.arrays c a found, carries.heap.dictionary, carries.withStack,
      carries.procedure, fun f member _ given => p.ends_native (carries.natives f member) given⟩
  extends_refl _ := trivial
  simple simple := simple.value
  object := trivial
  mono usable _ := usable
  release _ usable := usable
  owned_mono owned _ := owned
  owned_of_isObject _ usable := usable
  procedure_iff := Iff.rfl
  cls_iff := Iff.rfl
  allowed usable := p.allowed usable

theorem Machine.Carries.supplies {m : Machine} (carries : m.Carries p) :
    m.Supplies p p.value := p.realm.supplies (r := ⟨⟩) carries

def Policy.worldly (p : Policy) : BuiltinWalk Unit p.realm where
  holds _ _ Q x := (x ()).Worldly p (Q ⟨⟩)
  bind holds next := holds.bind fun a result => next ⟨⟩ trivial a result
  read blind result := .read blind fun m carries => result m ⟨⟩ trivial carries.supplies
  throw allowed := .throw allowed
  lookAt blind next := .get_bind_at blind fun m carries => next m ⟨⟩ trivial carries.supplies
  newArray usable := .newArray usable
  allocDictionary := .onHeap (fun h _ => h.advances_allocDictionary) fun _ _ => trivial
  modifyDictionary cell keeps _ := .modifyHeap fun h _ =>
    h.advances_modifyDictionary cell fun d content => keeps d ⟨⟩ trivial content
  toValue s := .onHeap (fun h _ => (h.advances_toValue s).1) fun h _ => (h.advances_toValue s).2
  freshView := .onHeap (fun h _ => h.advances_freshView) fun _ _ => trivial
  modifySite continues := .modifySite continues
  modifyControl continues time := .modifyControl continues time
  modifyErr f := .modifyErr f
  perform action := .perform action

section

variable (name : String) {args : List Value}

theorem Function.worldly_call? (given : ∀ v ∈ args, p.value v) :
    (call? name args).Worldly p fun found => ∀ v, found = some v → p.value v :=
  walk_call? (J := p.worldly) (r := ()) (w := ()) name given

variable (ref : ObjectRef)

theorem ObjectRef.worldly_read : (ref.members.read name).Worldly p p.value :=
  (ref.serves p.worldly).read (r := ()) (w := ()) name

theorem ObjectRef.worldly_call (given : ∀ v ∈ args, p.value v) :
    (ref.members.call name args).Worldly p p.value :=
  (ref.serves p.worldly).call (r := ()) (w := ()) name given

variable {v : Value} (usable : p.value v)

include usable

theorem ObjectRef.worldly_write : (ref.members.write name v).Worldly p fun _ => True :=
  (ref.serves p.worldly).write (r := ()) (w := ()) name usable

theorem ObjectRef.worldly_writeItem (given : ∀ a ∈ args, p.value a) :
    (ref.members.writeItem args v).Worldly p fun _ => True :=
  (ref.serves p.worldly).writeItem (r := ()) (w := ()) given usable

end

theorem ObjectRef.worldly_entries (ref : ObjectRef) :
    ref.members.entries.Worldly p fun found =>
      ∀ items, found = some items → ∀ v ∈ items, p.value v :=
  (ref.serves p.worldly).entries (r := ()) (w := ())

namespace Run

theorem worldly_resolve (name : Name) : Worldly p p.resolved (resolve name) := by
  refine .get_bind (fun _ _ => rfl) fun m carries => .pure ?_
  have resolved := carries.supplies.resolve name
  cases found : m.scopes.resolve m.heap name <;> rw [found] at resolved <;> exact resolved

theorem worldly_lookup (name : Name) :
    Worldly p (fun r => ∀ v, r = some v → p.value v) (lookup name) := by
  refine .get_bind (fun _ _ => rfl) fun m carries => .pure fun v found => ?_
  exact carries.supplies.lookup found

end Run

theorem Interpreter.worldly_resizeArray (inPlace : p.inPlace) (cell : Nat) (uppers : List Int64) :
    Run.Worldly p (fun _ => True) (resizeArray cell uppers) := by
  refine ⟨fun m carries => ?_, fun m carries => ?_, fun m limit carries => ?_⟩
  all_goals
    simp only [resizeArray, Run.exec_get_bind, Machine.withLimit]
    cases done : Heap.resizePreserve m.heap.arrayDepth m.heap ((m.heap.array? cell).getD {}) uppers
  · exact .refl m
  · rename_i result
    obtain ⟨moved, content⟩ :=
      Heap.advances_resizePreserve inPlace _ carries.heap carries.heap.array done
    exact .ofHeap m (moved.trans (Heap.advances_setArray inPlace _ cell content))
  · rintro ⟨⟩
  · trivial
  · rfl
  · rfl

def Judgement.walk (J : Judgement ι p) : Walk ι p.realm where
  holds _ _ Q x := J.holds (Q ⟨⟩) x
  bind holds next := J.bind holds fun a result => next ⟨⟩ trivial a result
  read blind result := J.world (.read blind fun m carries => result m ⟨⟩ trivial carries.supplies)
  throw allowed := J.world (.throw allowed)

theorem Judgement.effects (J : Judgement ι p) :
    J.walk.Effects fun _ _ _ x => J.holds (fun _ => True) x where
  setPath path inPlace _ _ owned :=
    J.world (.onHeap (fun h _ => h.advances_setPath inPlace _ path owned) fun _ _ => trivial)
  deepCopy usable := J.world (.deepCopy usable)
  setField cell name usable := J.world (.modifyHeap fun h _ => h.advances_setField cell name usable)
  newDimensions uppers := J.world (.newDimensions uppers)
  function name _ given := J.world (Function.worldly_call? name given).attempt
  readObject ref name := J.world (ref.worldly_read name).attempt
  callObject ref name _ given := J.world (ref.worldly_call name given).attempt
  writeObject ref name usable := J.world (ref.worldly_write name usable)
  writeItem ref _ given usable := J.world (ref.worldly_writeItem usable given)
  entries ref := J.world ref.worldly_entries
  checkDeadline := J.world .checkDeadline
  freshView := J.world (.onHeap (fun h _ => h.advances_freshView) fun _ _ => trivial)
  erase inPlace _ :=
    J.world (.modifyHeap fun h _ => h.advances_modifyArray inPlace _ fun a _ => a.carries_erase)
  resize uppers inPlace _ := J.world (Interpreter.worldly_resizeArray inPlace _ uppers)

def ExprJudgement.walk (J : ExprJudgement ι p) : ExprWalk ι p.realm where
  toWalk := J.toJudgement.walk
  delivers _ _ _ x := J.holds (fun _ => True) x
  delivers_bind _ holds next := J.bind holds fun a result => next ⟨⟩ trivial a result
  delivers_then holds next := J.bind holds fun a _ => next ⟨⟩ trivial a
  delivers_of_holds _ holds := holds
  gives _ owned next := next ⟨⟩ trivial owned
  holds_of_delivers holds := holds
  setsAside usable next := J.bind (J.world (.deepCopy usable)) fun u usable =>
    next ⟨⟩ ⟨⟩ u trivial trivial usable
  assign name usable := J.weaken (J.assign usable) fun assigned target => by
    cases assigned <;> exact target
  guarded holds := J.guarded holds
  effects := J.toJudgement.effects

def StmtJudgement.walk (S : StmtJudgement ι p) : StmtWalk ι p.realm where
  toWalk := S.toJudgement.walk
  exprs := S.exprs.walk
  declares := S.declares
  modes := S.modes
  lift holds := S.lift holds
  define declares usable := S.define declares usable
  constant _ usable := S.constant usable
  extend _ usable := S.extend usable
  inside usable holds := S.inside usable holds
  errorMode allowed := S.errorMode allowed
  compareMode _ := S.compareMode

def BlockJudgement.walk (S : BlockJudgement ι p) : BlockWalk ι p.realm where
  toStmtWalk := S.toStmtJudgement.walk
  settle _ holds := S.settle holds

namespace ExprJudgement

open Interpreter

section

variable (J : ExprJudgement ι p) (ev : ι → Interpreter)

def Evaluates (e : Expr) : Prop := J.holds p.value fun i => (ev i).expr e

def Invokes : Prop :=
  ∀ decl this values, p.procedure decl → (∀ ref, this = some ref → p.inst ref.cell ref.cls) →
  (∀ v ∈ values, p.value v) → J.holds p.invocation fun i => (ev i).invoke decl this values

def StoresAt (index : List Value) (value : Value) (name : Name) : Prop :=
  ∀ container, p.value container →
    J.holds (fun _ => True) fun i => (ev i).store container index value name

def Stores : Prop := ∀ index value name, (∀ v ∈ index, p.value v) → p.value value →
  J.StoresAt ev index value name

end

variable (J : ExprJudgement ι p) {ev : ι → Interpreter}

theorem walk_evaluates {es : List Expr} (evaluates : ∀ e ∈ es, J.Evaluates ev e) :
    ∀ e ∈ es, J.walk.Evaluates ev e := fun e member _ _ => evaluates e member

theorem walk_invokes (invokes : J.Invokes ev) : J.walk.Invokes ev := by
  intro _ _ decl this values allowed current given
  refine J.weaken (invokes decl this values allowed current given) fun result usable => ?_
  exact ⟨usable.value, usable.params⟩

theorem walk_stores (stores : J.Stores ev) : J.walk.Stores ev := by
  intro _ _ _ index value name _ indexed given _ container _ usable
  exact stores index value name indexed given container usable

theorem holds_assignName (invokes : J.Invokes ev) {name : Name} {value : Value} {set : Bool}
    (given : p.value value) :
    J.holds (fun _ => True) fun i => assignName (ev i) name value set :=
  ExprWalk.assignName (J := J.walk) (r := ()) (w := ()) (J.walk_invokes invokes) given

theorem holds_callProcedure (invokes : J.Invokes ev) {decl : Procedure}
    {this : Option InstanceRef} {args : Arguments} (allowed : p.procedure decl)
    (current : ∀ ref, this = some ref → p.inst ref.cell ref.cls)
    (given : ∀ v ∈ args.values, p.value v) :
    J.holds p.value fun i => callProcedure (ev i) decl this args := by
  have invokes := J.walk_invokes invokes
  exact ExprWalk.callProcedure (J := J.walk) (r := ()) (w := ()) invokes allowed current given

theorem holds_arguments {args : List Expr} (evaluates : ∀ e ∈ args, J.Evaluates ev e) :
    J.holds (fun r => ∀ v ∈ r.values, p.value v) fun i => arguments (ev i) args :=
  ExprWalk.arguments (J := J.walk) (r := ()) (w := ()) (J.walk_evaluates evaluates)

theorem holds_evalExpr (invokes : J.Invokes ev) {e : Expr}
    (evaluates : ∀ part ∈ e.parts, J.Evaluates ev part)
    (creates : ∀ cell cls, p.cls cls → p.inst cell cls)
    (bounds : ∀ name, e = .new name → ∀ cls, p.cls cls → ∀ d ∈ cls.bounds, J.Evaluates ev d) :
    J.holds p.value fun i => evalExpr (ev i) e := by
  refine ExprWalk.evalExpr (J := J.walk) (r := ()) (w := ()) (J.walk_invokes invokes)
    (J.walk_evaluates evaluates) ?_ fun name same cls allowed =>
      J.walk_evaluates (bounds name same cls allowed)
  intro _ _ cls fields allowed _ usable
  exact J.world (.onHeap (fun h _ => h.advances_allocInstance usable)
    fun h _ => creates _ cls allowed)

theorem holds_storeElement (invokes : J.Invokes ev) {container : Value} {index : List Value}
    {value : Value} {name : Name} (inPlace : ∀ cell, container = .array cell → p.inPlace)
    (target : p.value container) (indexed : ∀ v ∈ index, p.value v) (given : p.value value)
    (stores : ∀ cell cls member, container = .inst cell cls → memberName cls .blank = .ok member →
      relays cls member false .outside → J.StoresAt ev index value member) :
    J.holds (fun _ => True) fun i => storeElement (ev i) container index value name := by
  refine ExprWalk.storeElement (J := J.walk) (w := ()) (J.walk_invokes invokes) inPlace
    (p.realm.extends_refl ()) target indexed given ?_
  intro cell cls member same found relayed _ container _ usable
  exact stores cell cls member same found relayed container usable

end ExprJudgement

namespace StmtJudgement

open Interpreter

section

variable (S : StmtJudgement ι p) (ev : ι → Interpreter)

def Runs (block : Block) : Prop := S.holds (fun _ => True) fun i => (ev i).block block

/-- What the rules of statements need of the interpreter they are written against. -/
structure Serves : Prop where
  invokes : S.exprs.Invokes ev
  stores : S.exprs.Stores ev
  even : p.exhausts → ∃ fuel, ∀ i, (ev i).fuel = fuel

/-- What is known of a statement before it is run. -/
structure Admits (kind : StmtKind) : Prop where
  parts : ∀ e ∈ kind.parts, S.exprs.Evaluates ev e
  bodies : ∀ body ∈ kind.bodies, S.Runs ev body
  declared : ∀ name ∈ kind.declared, S.declares name
  modes : ∀ resumeNext ∈ kind.modes, S.modes resumeNext
  obeys : kind.Obeys p

end

variable {S : StmtJudgement ι p} {ev : ι → Interpreter}

theorem Serves.walk (serves : S.Serves ev) : S.walk.Serves ev :=
  ⟨S.exprs.walk_invokes serves.invokes, S.exprs.walk_stores serves.stores, serves.even⟩

theorem Admits.walk {kind : StmtKind} (admits : S.Admits ev kind) : S.walk.Admits ev kind :=
  ⟨S.exprs.walk_evaluates admits.parts, fun body member _ _ => admits.bodies body member,
    admits.declared, admits.modes, admits.obeys⟩

theorem holds_declare {name : Name} {v : Value} (declares : S.declares name) (value : p.value v) :
    S.holds (fun _ => True) fun _ => Run.modifyScopes (·.declare name v) :=
  StmtWalk.declare (J := S.walk) (r := ()) (w := ()) declares value

theorem holds_execDim {decls : List VarDecl} (admits : S.Admits ev (.dim decls)) :
    S.holds (fun _ => True) fun i => execDim (ev i) decls :=
  StmtWalk.execDim (J := S.walk) (r := ()) (w := ()) admits.walk

theorem holds_goesOn {condition : Option LoopCondition} {position : TestPosition}
    (evaluates : ∀ e ∈ condition.toList.map (·.expr), S.exprs.Evaluates ev e) :
    S.holds (fun _ => True) fun i => goesOn (ev i) condition position :=
  StmtWalk.goesOn (J := S.walk) (r := ()) (w := ()) (S.exprs.walk_evaluates evaluates)

theorem holds_anyHolds {mode : CompareMode} {subject : Value} {tests : List CaseTest}
    (parts : ∀ e ∈ tests.flatMap (·.parts), S.exprs.Evaluates ev e) :
    S.holds (fun _ => True) fun i => anyHolds (ev i) mode subject tests :=
  StmtWalk.anyHolds (J := S.walk) (r := ()) (w := ()) (S.exprs.walk_evaluates parts)

theorem holds_execKind (serves : S.Serves ev) {kind : StmtKind} (admits : S.Admits ev kind) :
    S.holds (fun _ => True) fun i => execKind (ev i) kind :=
  StmtWalk.execKind (J := S.walk) (r := ()) (w := ()) serves.walk admits.walk

theorem holds_hoist (block : Block) (declared : ∀ stmt ∈ block, ∀ name ∈ stmt.kind.declared,
      S.declares name) (obeys : ∀ stmt ∈ block, stmt.kind.Obeys p) :
    S.holds (fun _ => True) fun _ => hoist block :=
  StmtWalk.hoist (J := S.walk) (r := ()) (w := ()) block declared obeys

theorem holds_bindParams {params : List Param} {values : List Value}
    (declares : ∀ param ∈ params, S.declares param.name) (given : ∀ v ∈ values, p.value v) :
    S.holds (fun _ => True) fun _ => bindParams params values :=
  StmtWalk.bindParams (J := S.walk) (r := ()) (w := ()) declares given

theorem holds_runBody {decl : Procedure} {values : List Value}
    (params : ∀ param ∈ decl.params, S.declares param.name)
    (result : decl.kind.returnsValue → S.declares decl.name)
    (scalars : ∀ name ∈ blockScalars decl.body, S.declares name)
    (given : ∀ v ∈ values, p.value v) (runs : S.Runs ev decl.body) :
    S.holds p.invocation fun i => runBody (ev i) decl values := by
  have walked := StmtWalk.runBody (J := S.walk) (r := ()) (w := ()) params result scalars
    given fun _ _ => runs
  exact S.weaken walked fun result usable => ⟨usable.value, usable.params⟩

end StmtJudgement

namespace BlockJudgement

open Interpreter

variable {S : BlockJudgement ι p} {ev : ι → Interpreter}

theorem holds_execStmt (serves : S.Serves ev) {stmt : Stmt} (admits : S.Admits ev stmt.kind) :
    S.holds (fun _ => True) fun i => execStmt (ev i) stmt :=
  BlockWalk.execStmt (J := S.walk) (r := ()) (w := ()) serves.walk admits.walk

theorem holds_execBlock (serves : S.Serves ev) {block : Block}
    (admits : ∀ stmt ∈ block, S.Admits ev stmt.kind) :
    S.holds (fun _ => True) fun i => execBlock (ev i) block :=
  BlockWalk.execBlock (J := S.walk) (r := ()) (w := ()) serves.walk fun stmt member =>
    (admits stmt member).walk

end BlockJudgement
end ServerScript
