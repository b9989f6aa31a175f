import ServerScript.Proofs.Expressions

/-! The rules of statements, blocks and bodies of procedures under a walk. A statement is judged
from its expressions, its inner blocks, the names that it declares and the code that it stores. -/
namespace ServerScript

variable {ι : Type} {p : Policy} {T : ValueRealm p}

def CaseTest.parts : CaseTest → List Expr
  | .value e | .is _ e => [e]
  | .range low high => [low, high]

def StmtKind.parts : StmtKind → List Expr
  | .call e => e :: e.parts
  | .assign target value _ => value :: target.parts
  | .dim decls | .redim _ decls => decls.flatMap fun decl => decl.dims.getD []
  | .constants decls => decls.map (·.value)
  | .choose branches _ => branches.map (·.condition)
  | .forRange _ start stop step _ => start :: stop :: step.toList
  | .forEach _ group _ => [group]
  | .doLoop condition _ => condition.toList.map (·.expr)
  | .whileLoop condition _ => [condition]
  | .select subject cases _ => subject :: cases.flatMap fun clause => clause.tests.flatMap (·.parts)
  | .withBlock object _ => [object]
  | _ => []

def StmtKind.bodies : StmtKind → List Block
  | .choose branches otherwise => branches.map (·.body) ++ otherwise.toList
  | .select _ cases otherwise => cases.map (·.body) ++ otherwise.toList
  | .forRange _ _ _ _ body | .forEach _ _ body | .doLoop _ body | .whileLoop _ body
  | .withBlock _ body => [body]
  | _ => []

theorem sizeOf_of_mem_otherwise {otherwise : Option Block} {body : Block}
    (member : body ∈ otherwise.toList) : sizeOf body < sizeOf otherwise := by
  cases otherwise with
  | none => cases member
  | some other =>
    obtain rfl := List.mem_singleton.mp member
    simp

theorem StmtKind.sizeOf_of_mem_bodies {kind : StmtKind} {body : Block}
    (member : body ∈ kind.bodies) : sizeOf body < sizeOf kind := by
  cases kind with
  | choose branches otherwise =>
    rw [StmtKind.choose.sizeOf_spec]
    rcases List.mem_append.mp member with member | member
    · obtain ⟨⟨condition, body⟩, inside, rfl⟩ := List.mem_map.mp member
      have := List.sizeOf_lt_of_mem inside
      rw [Branch.mk.sizeOf_spec] at this
      dsimp only
      omega
    · have := sizeOf_of_mem_otherwise member
      omega
  | select subject cases otherwise =>
    rw [StmtKind.select.sizeOf_spec]
    rcases List.mem_append.mp member with member | member
    · obtain ⟨⟨tests, body⟩, inside, rfl⟩ := List.mem_map.mp member
      have := List.sizeOf_lt_of_mem inside
      rw [CaseClause.mk.sizeOf_spec] at this
      dsimp only
      omega
    · have := sizeOf_of_mem_otherwise member
      omega
  | forRange | forEach | doLoop | whileLoop | withBlock =>
    obtain rfl := List.mem_singleton.mp member
    simp only [forRange.sizeOf_spec, forEach.sizeOf_spec, doLoop.sizeOf_spec,
      whileLoop.sizeOf_spec, withBlock.sizeOf_spec]
    omega
  | _ => cases member

/-- The names that a statement gives a variable in the innermost procedure. A `ReDim` may do so
too, for a name that stands for nothing. -/
def StmtKind.declared : StmtKind → List Name
  | .dim decls => decls.map (·.name)
  | .procedure decl => [decl.name]
  | .classDef decl => [decl.ident]
  | _ => []

def StmtKind.modes : StmtKind → List Bool
  | .onError mode => [mode == .resumeNext]
  | _ => []

/-- A statement stores only code that keeps to a policy, it is no loop without a bound unless
computations may be exhausted, and it empties or resizes no array unless arrays may be written. -/
def StmtKind.Obeys (p : Policy) : StmtKind → Prop
  | .forRange .. | .doLoop .. | .whileLoop .. => p.exhausts
  | .erase _ => p.inPlace
  | .redim preserve _ => preserve → p.inPlace
  | .procedure decl => p.procedure decl
  | .classDef decl => ∀ cls, ClassDef.ofDecl decl = .ok cls → p.cls cls
  | _ => True

theorem StmtKind.obeys_any (kind : StmtKind) : kind.Obeys .any := by
  cases kind with
  | classDef decl => exact fun _ _ => trivial
  | redim => exact fun _ => trivial
  | _ => trivial

theorem Interpreter.headD_of_forall {P : Value → Prop} {values : List Value} {default : Value}
    (missing : P default) (all : ∀ v ∈ values, P v) : P (values.headD default) := by
  cases values with
  | nil => exact missing
  | cons v rest => exact all v List.mem_cons_self

namespace StmtWalk

open Interpreter

section

variable (J : StmtWalk ι T) (ev : ι → Interpreter)

def Runs (block : Block) : Prop := ∀ r w, J.holds r w (fun _ _ => True) fun i => (ev i).block block

/-- What the rules of statements need of the interpreter they are written against. -/
structure Serves : Prop where
  invokes : J.exprs.Invokes ev
  stores : J.exprs.Stores ev
  even : p.exhausts → ∃ fuel, ∀ i, (ev i).fuel = fuel

/-- What is known of a statement before it is run. -/
structure Admits (kind : StmtKind) : Prop where
  parts : ∀ e ∈ kind.parts, J.exprs.Evaluates ev e
  bodies : ∀ body ∈ kind.bodies, J.Runs ev body
  declared : ∀ name ∈ kind.declared, J.declares name
  modes : ∀ resumeNext ∈ kind.modes, J.modes resumeNext
  obeys : kind.Obeys p

end

variable {J : StmtWalk ι T} {ev : ι → Interpreter} {r : T.Reserve} {w : T.World}

theorem declare {name : Name} {v : Value} (declares : J.declares name) (given : T.value r w v) :
    J.holds r w (fun _ _ => True) fun _ => Run.modifyScopes (·.declare name v) := by
  have split : Run.modifyScopes (·.declare name v) =
      Run.read (fun m => (m.scopes.local? name).isSome) >>= fun known =>
        if known then pure ⟨⟩ else Run.modifyScopes (·.define name v) := by
    refine Run.ext fun m => ?_
    rw [Run.exec_bind_ok (Run.exec_read _ m)]
    cases known : (m.scopes.local? name).isSome <;>
      simp only [Run.modifyScopes, Scopes.declare, known, Run.exec_get_bind, if_true] <;> rfl
  rw [split]
  refine J.bind (Q := fun _ _ => True) (J.read (fun _ _ => rfl) fun _ _ _ _ => trivial)
    fun w' le known _ => ?_
  exact J.ite (fun _ => J.done) fun _ => J.define declares (T.mono given le)

theorem execCall (serves : J.Serves ev) {e : Expr}
    (evaluates : ∀ part ∈ e :: e.parts, J.exprs.Evaluates ev part) :
    J.exprs.holds r w (fun _ _ => True) fun i => execCall (ev i) e := by
  obtain ⟨whole, parts⟩ := List.forall_mem_cons.mp evaluates
  cases e with
  | call callee args => exact J.exprs.discard (ExprWalk.evalCall serves.invokes parts)
  | ident name => exact J.exprs.discard (ExprWalk.callName serves.invokes nofun)
  | member object name =>
    refine J.exprs.bind (parts object List.mem_cons_self r w) fun w' le target usable => ?_
    exact J.exprs.discard (ExprWalk.callOn serves.invokes usable nofun)
  | withMember name =>
    refine J.exprs.bind (J.exprs.withTarget name) fun w' le target usable => ?_
    exact J.exprs.discard (ExprWalk.callOn serves.invokes usable nofun)
  | _ => exact J.exprs.discard (whole r w)

theorem execDim {decls : List VarDecl} (admits : J.Admits ev (.dim decls)) :
    J.holds r w (fun _ _ => True) fun i => execDim (ev i) decls := by
  refine J.forM fun decl member w₁ le₁ => ?_
  have first : J.exprs.holds r w₁ (T.value r) fun i => declaredValue (ev i) decl.dims :=
    ExprWalk.declaredValue fun e inside =>
      admits.parts e (List.mem_flatMap.mpr ⟨decl, member, inside⟩)
  refine J.bind (J.lift first) fun w₂ le₂ v usable => ?_
  exact declare (admits.declared _ (List.mem_map_of_mem member)) usable

theorem execConst {decls : List ConstDecl} (admits : J.Admits ev (.constants decls)) :
    J.holds r w (fun _ _ => True) fun i => execConst (ev i) decls := by
  refine J.forM fun decl member w₁ le₁ => ?_
  have evaluates := admits.parts decl.value (List.mem_map_of_mem member)
  refine J.bind (J.lift (evaluates r w₁)) fun w₂ le₂ v usable => ?_
  exact J.constant decl.name usable

theorem execErase (inPlace : p.inPlace) (names : List Name) :
    J.holds r w (fun _ _ => True) fun _ => execErase names := by
  refine J.forM (f := fun _ => _) fun name member w₁ le₁ => ?_
  refine J.bind (J.lookup name) fun w₂ le₂ found usable => ?_
  split
  · exact J.lift (J.exprs.effects.erase inPlace (usable _ rfl))
  · exact J.error _
  · exact J.error _

theorem replaceArray (serves : J.Serves ev) {name : Name} {uppers : List Int64} :
    J.holds r w (fun _ _ => True) fun i => replaceArray (ev i) name uppers := by
  have split (i : ι) : Interpreter.replaceArray (ev i) name uppers =
      Run.newDimensions uppers >>= fun v => Run.extend name v >>= fun done =>
        if done then pure ⟨⟩ else assignName (ev i) name v false := by
    rw [Interpreter.replaceArray]
    refine bind_congr fun v => ?_
    rw [Run.extend, bind_assoc]
    refine bind_congr fun resolved => ?_
    cases resolved <;> simp
  refine (congrArg (J.holds r w fun _ _ => True) (funext split)).mpr ?_
  refine J.bind (J.lift (J.exprs.effects.newDimensions uppers)) fun w₁ le₁ v usable => ?_
  refine J.bind (J.extend name usable) fun w₂ le₂ done _ => ?_
  refine J.ite (fun _ => J.done) fun _ => ?_
  exact J.lift (ExprWalk.assignName serves.invokes (T.mono usable le₂))

theorem execRedim (serves : J.Serves ev) {preserve : Bool} {decls : List VarDecl}
    (admits : J.Admits ev (.redim preserve decls)) :
    J.holds r w (fun _ _ => True) fun i => execRedim (ev i) preserve decls := by
  refine J.forM fun decl member w₁ le₁ => ?_
  have bounds : J.exprs.holds r w₁ (fun _ _ => True) fun i =>
      dimensions (ev i) (decl.dims.getD []) :=
    ExprWalk.dimensions fun e inside =>
      admits.parts e (List.mem_flatMap.mpr ⟨decl, member, inside⟩)
  refine J.bind (J.lift bounds) fun w₂ le₂ uppers _ => ?_
  refine J.ite (fun preserves => ?_) fun _ => replaceArray serves
  refine J.bind (J.lookup decl.name) fun w₃ le₃ found usable => ?_
  split
  · exact J.lift (J.exprs.effects.resize uppers (admits.obeys preserves) (usable _ rfl))
  · exact replaceArray serves

theorem defineCallable {name : Name} {target : Callable} (declares : J.declares name)
    (usable : ∀ w id, T.value r w (.callable id target)) :
    J.holds r w (fun _ _ => True) fun _ => defineCallable name target := by
  refine J.bind (J.lift J.exprs.effects.freshView) fun w' le id _ => ?_
  exact J.define declares (usable w' id)

theorem defineProcedure {decl : Procedure} (declares : J.declares decl.name)
    (allowed : p.procedure decl) :
    J.holds r w (fun _ _ => True) fun _ => defineProcedure decl :=
  defineCallable declares fun _ _ => T.procedure_iff.mpr allowed

theorem defineClass {decl : ClassDecl} (declares : J.declares decl.ident)
    (allowed : ∀ cls, ClassDef.ofDecl decl = .ok cls → p.cls cls) :
    J.holds r w (fun _ _ => True) fun _ => defineClass decl := by
  refine J.bind (J.ofExcept fun cls done _ _ => allowed cls done) fun w' le cls allowed => ?_
  exact defineCallable declares fun _ _ => T.cls_iff.mpr allowed

theorem turn {own : ExitKind} {body : Block} {again : ι → Run Flow} (runs : J.Runs ev body)
    (more : ∀ w', w ≤ w' → J.holds r w' (fun _ _ => True) again) :
    J.holds r w (fun _ _ => True) (fun i => do
      match Turn.ofFlow own (← (ev i).block body) with
      | .again => again i
      | .done => return .normal
      | .leave flow => return flow) := by
  refine J.bind (runs r w) fun w' le flow _ => ?_
  cases Turn.ofFlow own flow with
  | again => exact more w' le
  | done => exact J.done
  | leave flow => exact J.done

theorem checkDeadline : J.holds r w (fun _ _ => True) fun _ => Run.checkDeadline :=
  J.lift J.exprs.effects.checkDeadline

theorem countTurns (serves : J.Serves ev) (exhausts : p.exhausts) {counter : Name}
    {integral : Bool} {step stop : Float} {body : Block} (runs : J.Runs ev body) (fuel : Nat)
    (current : Float) :
    J.holds r w (fun _ _ => True) fun i =>
      countTurns (ev i) counter integral step stop body fuel current := by
  induction fuel generalizing current w with
  | zero => exact J.throw fun _ => exhausts
  | succ fuel ih =>
    have value : ∀ w', T.value r w'
        (if integral then .integer (Number.saturate current) else .float current) := by
      intro w'
      split <;> exact T.simple trivial
    refine J.bind checkDeadline fun w₁ le₁ _ _ => ?_
    refine J.bind (J.lift (ExprWalk.assignName serves.invokes (value w₁))) fun w₂ le₂ _ _ => ?_
    refine J.ite (fun ended => J.done) fun _ => turn runs fun w₃ le₃ => ?_
    exact J.bind (J.lookup counter) fun w₄ le₄ found _ => ih _

theorem execFor (serves : J.Serves ev) {counter : Name} {start stop : Expr} {step : Option Expr}
    {body : Block} (admits : J.Admits ev (.forRange counter start stop step body)) :
    J.holds r w (fun _ _ => True) fun i => execFor (ev i) counter start stop step body := by
  obtain ⟨first, second, third⟩ :
      J.exprs.Evaluates ev start ∧ J.exprs.Evaluates ev stop ∧
        ∀ e ∈ step.toList, J.exprs.Evaluates ev e := by
    simpa only [StmtKind.parts, List.forall_mem_cons] using admits.parts
  obtain ⟨fuel, same⟩ := serves.even admits.obeys
  have runs := admits.bodies body List.mem_cons_self
  have turns : ∀ w (start stop step : Value), J.holds r w (fun _ _ => True) (fun i => do
      if step.toFloat == 0.0 then return .normal
      Interpreter.countTurns (ev i) counter (start.toNumeric.isInt && step.toNumeric.isInt)
        step.toFloat stop.toFloat body (ev i).fuel start.toFloat) := by
    intro w start stop step
    simp only [same]
    exact J.ite (fun _ => J.done) fun _ => countTurns serves admits.obeys runs fuel _
  refine J.bind (J.lift (first r w)) fun w₁ le₁ start _ => ?_
  refine J.bind (J.lift (second r w₁)) fun w₂ le₂ stop _ => ?_
  cases step with
  | none => exact turns w₂ start stop (.integer 1)
  | some step =>
    refine J.bind (J.lift (third step List.mem_cons_self r w₂)) fun w₃ le₃ step _ => ?_
    exact turns w₃ start stop step

theorem visitTurns (serves : J.Serves ev) {element : Name} {body : Block} (runs : J.Runs ev body)
    {items : List Value} (usable : ∀ v ∈ items, T.value r w v) :
    J.holds r w (fun _ _ => True) fun i => visitTurns (ev i) element body items := by
  induction items generalizing w with
  | nil => exact J.done
  | cons item rest ih =>
    obtain ⟨first, others⟩ := List.forall_mem_cons.mp usable
    refine J.bind checkDeadline fun w₁ le₁ _ _ => ?_
    have assigned : J.exprs.holds r w₁ (fun _ _ => True) fun i =>
        assignName (ev i) element item false :=
      ExprWalk.assignName serves.invokes (T.mono first le₁)
    refine J.bind (J.lift assigned) fun w₂ le₂ _ _ => turn runs fun w₃ le₃ => ?_
    exact ih (T.monos others (le_trans le₁ (le_trans le₂ le₃)))

theorem visited {group : Value} (usable : T.value r w group) :
    J.holds r w (fun w' items => ∀ v ∈ items, T.value r w' v) fun _ => visited group := by
  unfold Interpreter.visited
  split
  · rename_i cell
    refine J.look (fun _ _ => rfl) fun m w₁ le₁ supplies => J.pure fun w₂ le₂ => ?_
    have items := supplies.array (T.mono usable le₁)
    exact T.monos (supplies.flattenCell _ items) le₂
  · rename_i ref
    refine J.bind (J.lift (J.exprs.effects.entries ref)) fun w₁ le₁ found entries => ?_
    cases found with
    | none => exact J.error _
    | some items => exact J.pure fun w₂ le₂ => T.monos (entries items rfl) le₂
  · exact J.error _

theorem execForEach (serves : J.Serves ev) {element : Name} {group : Expr} {body : Block}
    (admits : J.Admits ev (.forEach element group body)) :
    J.holds r w (fun _ _ => True) fun i => execForEach (ev i) element group body := by
  have evaluates := admits.parts group List.mem_cons_self
  refine J.bind (J.lift (evaluates r w)) fun w₁ le₁ group usable => ?_
  refine J.bind (visited usable) fun w₂ le₂ items usables => ?_
  exact visitTurns serves (admits.bodies body List.mem_cons_self) usables

theorem goesOn {condition : Option LoopCondition} {position : TestPosition}
    (evaluates : ∀ e ∈ condition.toList.map (·.expr), J.exprs.Evaluates ev e) :
    J.holds r w (fun _ _ => True) fun i => goesOn (ev i) condition position := by
  cases condition with
  | none => exact J.done
  | some condition =>
    have tested := evaluates condition.expr List.mem_cons_self
    refine J.ite (fun here => ?_) fun elsewhere => J.done
    refine J.bind (J.lift (tested r w)) fun w' le v _ => ?_
    cases condition.test with
    | whileTrue => exact J.done
    | untilTrue => exact J.done

theorem doTurns {condition : Option LoopCondition} {body : Block}
    (admits : J.Admits ev (.doLoop condition body)) (fuel : Nat) :
    J.holds r w (fun _ _ => True) fun i => doTurns (ev i) condition body fuel := by
  have runs := admits.bodies body List.mem_cons_self
  induction fuel generalizing w with
  | zero => exact J.throw fun _ => admits.obeys
  | succ fuel ih =>
    refine J.bind checkDeadline fun w₁ le₁ _ _ => ?_
    refine J.bind (goesOn admits.parts) fun w₂ le₂ starts _ => ?_
    refine J.ite (fun _ => turn runs fun w₃ le₃ => ?_) fun _ => J.done
    refine J.bind (goesOn admits.parts) fun w₄ le₄ goesOn _ => ?_
    exact J.ite (fun _ => ih) fun _ => J.done

theorem whileTurns {condition : Expr} {body : Block}
    (admits : J.Admits ev (.whileLoop condition body)) (fuel : Nat) :
    J.holds r w (fun _ _ => True) fun i => whileTurns (ev i) condition body fuel := by
  have tested := admits.parts condition List.mem_cons_self
  have runs := admits.bodies body List.mem_cons_self
  induction fuel generalizing w with
  | zero => exact J.throw fun _ => admits.obeys
  | succ fuel ih =>
    refine J.bind checkDeadline fun w₁ le₁ _ _ => ?_
    refine J.bind (J.lift (tested r w₁)) fun w₂ le₂ v _ => ?_
    exact J.ite (fun _ => turn runs fun w₃ le₃ => ih) fun _ => J.done

theorem execBranches {branches : List Branch} {otherwise : Option Block}
    (parts : ∀ e ∈ branches.map (·.condition), J.exprs.Evaluates ev e)
    (bodies : ∀ body ∈ branches.map (·.body) ++ otherwise.toList, J.Runs ev body) :
    J.holds r w (fun _ _ => True) fun i => execBranches (ev i) otherwise branches := by
  induction branches generalizing w with
  | nil =>
    cases otherwise with
    | none => exact J.done
    | some body => exact bodies body List.mem_cons_self r w
  | cons branch rest ih =>
    obtain ⟨condition, conditions⟩ := List.forall_mem_cons.mp parts
    obtain ⟨first, others⟩ := List.forall_mem_cons.mp bodies
    refine J.bind (J.lift (condition r w)) fun w' le v _ => ?_
    exact J.ite (fun _ => first r w') fun _ => ih conditions others

theorem caseHolds {mode : CompareMode} {subject : Value} {test : CaseTest}
    (parts : ∀ e ∈ test.parts, J.exprs.Evaluates ev e) :
    J.holds r w (fun _ _ => True) fun i => caseHolds (ev i) mode subject test := by
  cases test with
  | value e => exact J.forget (J.lift (parts e List.mem_cons_self r w))
  | range low high =>
    have last := parts high (List.mem_cons_of_mem _ List.mem_cons_self)
    refine J.bind (J.lift (parts low List.mem_cons_self r w)) fun w' le v _ => ?_
    exact J.forget (J.lift (last r w'))
  | is op e =>
    refine J.bind (J.lift (parts e List.mem_cons_self r w)) fun w' le v _ => ?_
    exact J.forget J.checked

theorem anyHolds {mode : CompareMode} {subject : Value} {tests : List CaseTest}
    (parts : ∀ e ∈ tests.flatMap (·.parts), J.exprs.Evaluates ev e) :
    J.holds r w (fun _ _ => True) fun i => anyHolds (ev i) mode subject tests := by
  induction tests generalizing w with
  | nil => exact J.done
  | cons test rest ih =>
    obtain ⟨first, others⟩ := List.forall_mem_append.mp parts
    refine J.bind (caseHolds first) fun w' le holds _ => ?_
    exact J.ite (fun _ => J.done) fun _ => ih others

theorem selectBody {subject : Value} {cases : List CaseClause} {otherwise : Option Block}
    (parts : ∀ e ∈ cases.flatMap fun clause => clause.tests.flatMap (·.parts),
      J.exprs.Evaluates ev e)
    (bodies : ∀ body ∈ cases.map (·.body) ++ otherwise.toList, J.Runs ev body) :
    J.holds r w (fun _ chosen => ∀ body, chosen = some body → J.Runs ev body) fun i =>
      selectBody (ev i) otherwise subject cases := by
  induction cases generalizing w with
  | nil =>
    refine J.pure fun w' le body same => bodies body ?_
    simp [same]
  | cons clause rest ih =>
    obtain ⟨tests, others⟩ := List.forall_mem_append.mp parts
    obtain ⟨first, more⟩ := List.forall_mem_cons.mp bodies
    refine J.look (fun _ _ => rfl) fun m w₁ le₁ supplies => ?_
    refine J.bind (anyHolds tests) fun w₂ le₂ holds _ => ?_
    refine J.ite (fun _ => J.pure fun w₃ le₃ body same => ?_) fun _ => ih others more
    exact Option.some.inj same ▸ first

theorem execSelect {subject : Expr} {cases : List CaseClause} {otherwise : Option Block}
    (admits : J.Admits ev (.select subject cases otherwise)) :
    J.holds r w (fun _ _ => True) fun i => execSelect (ev i) subject cases otherwise := by
  obtain ⟨first, others⟩ := List.forall_mem_cons.mp admits.parts
  refine J.bind (J.lift (first r w)) fun w₁ le₁ subject _ => ?_
  refine J.bind (selectBody others admits.bodies) fun w₂ le₂ chosen runs => ?_
  cases chosen with
  | none => exact J.done
  | some body =>
    refine J.bind (runs body rfl r w₂) fun w₃ le₃ flow _ => ?_
    split
    · exact J.done
    · exact J.done

theorem normally {act : ι → Run Unit} (holds : J.holds r w (fun _ _ => True) act) :
    J.holds r w (fun _ _ => True) fun i => normally (act i) :=
  J.bind holds fun _ _ _ _ => J.done

/-- A statement is run under a walk if its expressions and inner blocks are. -/
theorem execKind (serves : J.Serves ev) {kind : StmtKind} (admits : J.Admits ev kind) :
    J.holds r w (fun _ _ => True) fun i => execKind (ev i) kind := by
  cases kind with
  | call e => exact normally (J.lift (execCall serves admits.parts))
  | assign target value set =>
    exact normally (J.lift (ExprWalk.execAssign serves.invokes serves.stores admits.parts))
  | dim decls => exact normally (execDim admits)
  | redim preserve decls => exact normally (execRedim serves admits)
  | constants decls => exact normally (execConst admits)
  | erase names => exact normally (execErase admits.obeys names)
  | choose branches otherwise => exact execBranches admits.parts admits.bodies
  | forRange counter start stop step body => exact execFor serves admits
  | forEach element group body => exact execForEach serves admits
  | doLoop condition body =>
    obtain ⟨fuel, same⟩ := serves.even admits.obeys
    simpa only [Interpreter.execKind, same] using doTurns admits fuel
  | whileLoop condition body =>
    obtain ⟨fuel, same⟩ := serves.even admits.obeys
    simpa only [Interpreter.execKind, same] using whileTurns admits fuel
  | select subject cases otherwise => exact execSelect admits
  | withBlock object body =>
    refine J.bind (J.lift (admits.parts object List.mem_cons_self r w)) fun w' le v usable => ?_
    exact J.inside usable (admits.bodies body List.mem_cons_self r w')
  | exit kind => exact J.done
  | procedure decl =>
    exact normally (defineProcedure (admits.declared _ List.mem_cons_self) admits.obeys)
  | classDef decl =>
    exact normally (defineClass (admits.declared _ List.mem_cons_self) admits.obeys)
  | onError mode => exact normally (J.errorMode (admits.modes _ List.mem_cons_self))
  | optionExplicit => exact J.done
  | optionCompare mode => exact normally (J.compareMode mode)

theorem hoist (block : Block)
    (declared : ∀ stmt ∈ block, ∀ name ∈ stmt.kind.declared, J.declares name)
    (obeys : ∀ stmt ∈ block, stmt.kind.Obeys p) :
    J.holds r w (fun _ _ => True) fun _ => hoist block := by
  refine J.forM (f := fun _ => _) fun stmt member w' le => ?_
  have names := declared stmt member
  have code := obeys stmt member
  cases kind : stmt.kind with
  | procedure decl =>
    rw [kind] at names code
    exact defineProcedure (names _ List.mem_cons_self) code
  | classDef decl =>
    rw [kind] at names code
    exact defineClass (names _ List.mem_cons_self) code
  | _ => exact J.done

theorem bindParams {params : List Param} {values : List Value}
    (declares : ∀ param ∈ params, J.declares param.name) (given : ∀ v ∈ values, T.value r w v) :
    J.holds r w (fun _ _ => True) fun _ => bindParams params values := by
  induction params generalizing values w with
  | nil => exact J.done
  | cons param params ih =>
    obtain ⟨first, others⟩ := List.forall_mem_cons.mp declares
    have value : T.value r w (values.headD .empty) := headD_of_forall T.empty given
    have rest : ∀ v ∈ values.tail, T.value r w v := fun v member =>
      given v (List.mem_of_mem_tail member)
    refine J.ite (fun byVal => ?_) fun byRef => ?_
    · refine J.bind (J.lift (J.exprs.effects.deepCopy value)) fun w₁ le₁ copy usable => ?_
      refine J.bind (J.define first usable) fun w₂ le₂ _ _ => ?_
      exact ih others (T.monos rest (le_trans le₁ le₂))
    · refine J.bind (J.pure fun w' le => T.mono value le) fun w₁ le₁ v usable => ?_
      refine J.bind (J.define first usable) fun w₂ le₂ _ _ => ?_
      exact ih others (T.monos rest (le_trans le₁ le₂))

theorem hoistScalars {block : Block} (scalars : ∀ name ∈ blockScalars block, J.declares name) :
    J.holds r w (fun _ _ => True) fun _ => hoistScalars block :=
  J.forM (f := fun _ => _) fun name member _ _ => declare (scalars name member) T.empty

theorem runBody {decl : Procedure} {values : List Value}
    (params : ∀ param ∈ decl.params, J.declares param.name)
    (result : decl.kind.returnsValue → J.declares decl.name)
    (scalars : ∀ name ∈ blockScalars decl.body, J.declares name)
    (given : ∀ v ∈ values, T.value r w v) (runs : J.Runs ev decl.body) :
    J.holds r w (T.invocation r) fun i => runBody (ev i) decl values := by
  have finish : ∀ w, J.holds r w (T.invocation r) (fun i => do
      Interpreter.hoistScalars decl.body
      discard ((ev i).block decl.body)
      let m ← get
      return {
        value := if decl.kind.returnsValue then localValue m decl.name else .empty
        params := decl.params.map fun param => localValue m param.name }) := by
    intro w
    refine J.bind (hoistScalars scalars) fun w₁ le₁ _ _ => ?_
    refine J.bind (J.discard (runs r w₁)) fun w₂ le₂ _ _ => ?_
    refine J.look (fun _ _ => rfl) fun m w₃ le₃ supplies => J.pure fun w₄ le₄ => ?_
    have usable (name : Name) : T.value r w₄ (localValue m name) :=
      T.mono (supplies.localValue T.empty name) le₄
    refine ⟨?_, fun v member => ?_⟩
    · dsimp only
      split
      · exact usable decl.name
      · exact T.empty
    · obtain ⟨param, -, rfl⟩ := List.mem_map.mp member
      exact usable param.name
  refine J.bind (bindParams params given) fun w₁ le₁ _ _ => ?_
  refine J.ite (fun returns => ?_) fun _ => finish w₁
  exact J.bind (J.define (result returns) T.empty) fun w₂ le₂ _ _ => finish w₂

end StmtWalk

namespace BlockWalk

open Interpreter

variable {J : BlockWalk ι T} {ev : ι → Interpreter} {r : T.Reserve} {w : T.World}

theorem execStmt (serves : J.Serves ev) {stmt : Stmt} (admits : J.Admits ev stmt.kind) :
    J.holds r w (fun _ _ => True) fun i => execStmt (ev i) stmt := by
  refine J.look (fun _ _ => rfl) fun m w₁ le₁ supplies => ?_
  cases m.control.halt with
  | some reason => exact J.done
  | none =>
    have worked : J.holds r w₁ (fun _ _ => True) fun i =>
        Run.checkDeadline >>= fun _ => Interpreter.execKind (ev i) stmt.kind :=
      J.bind StmtWalk.checkDeadline fun w₂ le₂ _ _ => StmtWalk.execKind serves admits
    refine J.bind (J.settle stmt.range worked) fun w₂ le₂ result _ => ?_
    split
    · exact J.look (fun _ _ => rfl) fun m w₃ le₃ supplies => J.done
    · exact J.done

theorem execBlock (serves : J.Serves ev) {block : Block}
    (admits : ∀ stmt ∈ block, J.Admits ev stmt.kind) :
    J.holds r w (fun _ _ => True) fun i => execBlock (ev i) block := by
  induction block generalizing w with
  | nil => exact J.done
  | cons stmt rest ih =>
    obtain ⟨first, others⟩ := List.forall_mem_cons.mp admits
    refine J.bind (execStmt serves first) fun w' le flow _ => ?_
    split
    · exact ih others
    · exact J.done

end BlockWalk
end ServerScript
