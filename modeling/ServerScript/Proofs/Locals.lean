import Mathlib.Data.List.Forall2
import ServerScript.Proofs.CallTarget
import ServerScript.Proofs.Frames

/-! Locals never leak. The scalars that a body declares anywhere are variables of its frame before
its first statement runs. A write looks for a variable in the frames from the innermost outward,
so from then on a write of such a name stops at this frame or further in, whatever is called
meanwhile: what the name is bound to in the frames below and outside of procedures stays. A
declaration that is reached later finds the variable and leaves it alone. -/
namespace ServerScript

/-- A block declares a name as a scalar, itself or in a block inside of one of its statements. -/
inductive DeclaresScalar (x : Name) : Block → Prop where
  | dim {block stmt decls decl} (member : stmt ∈ block) (kind : Stmt.kind stmt = .dim decls)
    (declared : decl ∈ decls) (name : VarDecl.name decl = x) (scalar : VarDecl.dims decl = none) :
    DeclaresScalar x block
  | inner {block stmt body} (member : stmt ∈ block) (inside : body ∈ (Stmt.kind stmt).bodies)
    (declares : DeclaresScalar x body) : DeclaresScalar x block

theorem blockScalars_eq (block : Block) : blockScalars block = block.flatMap (·.kind.scalars) := by
  induction block with
  | nil => rfl
  | cons stmt rest ih => cases stmt; rw [blockScalars, ih, List.flatMap_cons]

theorem branchScalars_eq (branches : List Branch) :
    branchScalars branches = branches.flatMap fun branch => blockScalars branch.body := by
  induction branches with
  | nil => rfl
  | cons branch rest ih => cases branch; rw [branchScalars, ih, List.flatMap_cons]

theorem caseScalars_eq (cases : List CaseClause) :
    caseScalars cases = cases.flatMap fun clause => blockScalars clause.body := by
  induction cases with
  | nil => rfl
  | cons clause rest ih => cases clause; rw [caseScalars, ih, List.flatMap_cons]

theorem otherwiseScalars_eq (otherwise : Option Block) :
    otherwiseScalars otherwise = otherwise.toList.flatMap blockScalars := by
  cases otherwise with
  | none => rfl
  | some body => exact (List.append_nil _).symm

theorem bodies_subset_scalars {kind : StmtKind} {body : Block} (inside : body ∈ kind.bodies) :
    blockScalars body ⊆ kind.scalars := by
  intro x member
  have found : x ∈ kind.bodies.flatMap blockScalars := List.mem_flatMap.mpr ⟨body, inside, member⟩
  cases kind with
  | choose | select =>
    simpa only [StmtKind.bodies, StmtKind.scalars, branchScalars_eq, caseScalars_eq,
      otherwiseScalars_eq, List.flatMap_append, List.flatMap_map] using found
  | forRange | forEach | doLoop | whileLoop | withBlock =>
    simpa only [StmtKind.bodies, StmtKind.scalars, List.flatMap_singleton] using found
  | _ => cases inside

theorem DeclaresScalar.mem_blockScalars {x : Name} {block : Block}
    (declares : DeclaresScalar x block) : x ∈ blockScalars block := by
  induction declares with
  | @dim block stmt decls decl member kind declared name scalar =>
    have scalars : x ∈ stmt.kind.scalars := by
      rw [kind, StmtKind.scalars, scalarNames]
      exact List.mem_map.mpr ⟨decl, List.mem_filter.mpr ⟨declared, by simp [scalar]⟩, name⟩
    rw [blockScalars_eq]
    exact List.mem_flatMap.mpr ⟨stmt, member, scalars⟩
  | @inner block stmt body member inside _ ih =>
    rw [blockScalars_eq]
    exact List.mem_flatMap.mpr ⟨stmt, member, bodies_subset_scalars inside ih⟩

def Scope.binding (x : Name) (scope : Scope) : Option Value × Option Value :=
  (lookupName x scope.locals, lookupName x scope.constants)

/-- Some frame has a variable of the name, and the frames below it have given bindings. -/
inductive Shielded (x : Name) (below : List (Option Value × Option Value)) : List Scope → Prop where
  | here {scope rest} (binds : Scope.Binds scope x) (same : rest.map (Scope.binding x) = below) :
    Shielded x below (scope :: rest)
  | inner {scope frames} (deeper : Shielded x below frames) : Shielded x below (scope :: frames)

theorem binding_setInFrames {x name : Name} (other : name ≠ x) (v : Value) (frames : List Scope) :
    (Scopes.setInFrames name v frames).map (Scope.binding x) = frames.map (Scope.binding x) := by
  induction frames with
  | nil => rfl
  | cons scope rest ih =>
    rw [Scopes.setInFrames]
    split
    · simp [Scope.binding, lookupName_putName, Ne.symm other]
    · simp [ih]

namespace Shielded

variable {x : Name} {below : List (Option Value × Option Value)} {frames : List Scope}

theorem setInFrames (shielded : Shielded x below frames) (name : Name) (v : Value) :
    Shielded x below (Scopes.setInFrames name v frames) := by
  induction shielded with
  | here binds same =>
    rw [Scopes.setInFrames]
    split
    · exact .here (Scope.binds_put.mpr (.inr binds)) same
    · rename_i other
      refine .here binds ((binding_setInFrames ?_ v _).trans same)
      rintro rfl
      exact other binds
  | inner deeper ih =>
    rw [Scopes.setInFrames]
    split
    · exact .inner deeper
    · exact .inner ih

theorem replace {scope scope' : Scope} {rest : List Scope}
    (shielded : Shielded x below (scope :: rest)) (keeps : scope.Binds x → scope'.Binds x) :
    Shielded x below (scope' :: rest) := by
  cases shielded with
  | here binds same => exact .here (keeps binds) same
  | inner deeper => exact .inner deeper

theorem ne_nil (shielded : Shielded x below frames) : frames ≠ [] := by
  cases shielded <;> exact List.cons_ne_nil _ _

theorem length_lt (shielded : Shielded x below frames) : below.length < frames.length := by
  induction shielded with
  | here _ same => simp [← same]
  | inner _ ih => exact Nat.lt_succ_of_lt ih

theorem exists_binds (shielded : Shielded x below frames) : ∃ scope ∈ frames, scope.Binds x := by
  induction shielded with
  | here binds => exact ⟨_, List.mem_cons_self, binds⟩
  | inner _ ih =>
    obtain ⟨scope, member, binds⟩ := ih
    exact ⟨scope, List.mem_cons_of_mem _ member, binds⟩

theorem tail (shielded : Shielded x below frames) (deep : below.length + 1 < frames.length) :
    Shielded x below (frames.drop 1) := by
  cases shielded with
  | here _ same =>
    subst same
    simp at deep
  | inner deeper => exact deeper

theorem innermost (shielded : Shielded x below frames) (last : frames.length = below.length + 1) :
    ∃ scope rest, frames = scope :: rest ∧ scope.Binds x ∧ rest.map (Scope.binding x) = below := by
  cases shielded with
  | @here scope rest binds same => exact ⟨scope, rest, rfl, binds, same⟩
  | inner deeper =>
    have := deeper.length_lt
    simp only [List.length_cons] at last
    omega

end Shielded

/-- The names in reach while a procedure runs that shields a name: a frame has a variable of it,
and below that frame and outside of procedures it is bound as in an outer state. -/
structure Scopes.Shields (s : Scopes) (x : Name) (outer : Scopes) : Prop where
  frames : Shielded x (outer.frames.map (Scope.binding x)) s.frames
  global : s.global? x = outer.global? x
  constant : lookupName x s.constants = lookupName x outer.constants

namespace Scopes.Shields

variable {x : Name} {outer s s' : Scopes} {h h' : Heap} {name : Name} {v : Value}

theorem assign (shields : s.Shields x outer) {r : Assigned}
    (done : s.assign h name v = .ok (s', h', r)) : s'.Shields x outer := by
  obtain ⟨rfl, -, -⟩ | ⟨missing, rfl, -, -⟩ | ⟨-, rfl, -, -⟩ | ⟨-, -, rfl, -, -⟩ :=
    assign_cases done
  · exact ⟨shields.frames.setInFrames name v, shields.global, shields.constant⟩
  · refine ⟨shields.frames, ?_, shields.constant⟩
    rw [Scopes.global?_setGlobal, if_neg, shields.global]
    rintro rfl
    obtain ⟨scope, member, binds⟩ := shields.frames.exists_binds
    rw [Scope.Binds, List.findSome?_eq_none_iff.mp missing scope member] at binds
    cases binds
  · exact shields
  · exact shields

theorem define (shields : s.Shields x outer) (done : s.define name v = .ok s') :
    s'.Shields x outer := by
  have frames := shields.frames
  obtain ⟨scope, rest, first, rfl⟩ | ⟨empty, -⟩ := define_cases done
  · rw [first] at frames
    exact ⟨frames.replace fun binds => Scope.binds_put.mpr (.inr binds), shields.global,
      shields.constant⟩
  · exact absurd empty frames.ne_nil

theorem setConstant (shields : s.Shields x outer) (done : s.setConstant name v = .ok s') :
    s'.Shields x outer := by
  have frames := shields.frames
  obtain ⟨scope, rest, first, rfl⟩ | ⟨empty, -⟩ := setConstant_cases done
  · rw [first] at frames
    exact ⟨frames.replace id, shields.global, shields.constant⟩
  · exact absurd empty frames.ne_nil

end Scopes.Shields

def shieldExprs (x : Name) (outer : Scopes) : ExprDiscipline where
  Pre m := m.scopes.Shields x outer
  Step m m' := m'.scopes.Shields x outer ∧ m'.scopes.depth = m.scopes.depth
  refl pre := ⟨pre, rfl⟩
  trans first second := ⟨second.1, second.2.trans first.2⟩
  keeps _ step := step.1
  moves pre moved := ⟨moved.scopes ▸ pre, congrArg Scopes.depth moved.scopes⟩
  assign pre done := ⟨pre.assign done, (Machine.restoresMode_assign done).depth⟩
  enterGetter pre _ := pre
  leaveGetter _ _ inner := inner

def shieldStmts (x : Name) (outer : Scopes) : StmtDiscipline where
  toDiscipline := (shieldExprs x outer).toDiscipline
  exprs := shieldExprs x outer
  declares _ := True
  modes _ := True
  pre_iff := .rfl
  lift _ step := step
  define pre _ done := ⟨pre.define done, (Machine.restores_define done).depth⟩
  constant pre done := ⟨pre.setConstant done, (Machine.restores_setConstant done).depth⟩
  extend pre _ done := ⟨pre.define done, (Machine.restores_define done).depth⟩
  errorMode pre _ := ⟨pre, rfl⟩
  compareMode pre := ⟨⟨pre.frames, pre.global, pre.constant⟩, rfl⟩
  enterWith pre := pre
  leaveWith _ inner := inner

/-- The regime under which a name stays shielded. The frame of a call stands in front of the one
that has the variable, and goes again. -/
def shieldRegime (x : Name) (outer : Scopes) : Regime where
  stmts _ := shieldStmts x outer
  fits _ _ := True
  rest _ := trivial
  inner _ _ _ := trivial
  declared _ _ _ := trivial
  modes _ _ _ := trivial
  body _ _ := trivial
  params _ _ _ _ := trivial
  result _ _ _ := trivial
  scalars _ _ _ _ := trivial
  enter pre _ := ⟨.inner pre.frames, pre.global, pre.constant⟩
  leave {_ m m' _ _} pre body := by
    have depth : m'.scopes.frames.length = m.scopes.frames.length + 1 := body.2
    have before := pre.frames.length_lt
    refine ⟨⟨body.1.frames.tail (by omega), body.1.global, body.1.constant⟩, ?_⟩
    simp [Interpreter.leave, Scopes.pop, Scopes.depth, depth]

/-- A frame that is being opened in front of others: it has variables of given names and no
constants, and nothing else has changed. -/
structure Scopes.Opens (s : Scopes) (outer : Scopes) (names : List Name) : Prop where
  frames : ∃ scope, s.frames = scope :: outer.frames ∧ scope.constants = [] ∧
    ∀ x ∈ names, scope.Binds x
  globals : s.globals = outer.globals
  constants : s.constants = outer.constants

namespace Scopes.Opens

variable {s outer : Scopes} {names : List Name}

theorem define (opens : s.Opens outer names) (name : Name) (v : Value) :
    ∃ s', s.define name v = .ok s' ∧ s'.Opens outer (name :: names) := by
  obtain ⟨scope, frames, empty, binds⟩ := opens.frames
  let opened : Scope := { scope with locals := putName name v scope.locals }
  refine ⟨{ s with frames := opened :: outer.frames }, ?_, ⟨opened, rfl, empty, ?_⟩,
    opens.globals, opens.constants⟩
  · simp [Scopes.define, frames, empty, lookupName, opened]
  · intro x member
    exact Scope.binds_put.mpr ((List.mem_cons.mp member).imp_right (binds x))

theorem declare (opens : s.Opens outer names) (name : Name) (v : Value) :
    ∃ s', s.declare name v = .ok s' ∧ s'.Opens outer (name :: names) := by
  obtain ⟨scope, frames, empty, binds⟩ := opens.frames
  rw [Scopes.declare]
  split
  · rename_i known
    refine ⟨s, rfl, ⟨scope, frames, empty, ?_⟩, opens.globals, opens.constants⟩
    rw [Scopes.local?, frames] at known
    exact List.forall_mem_cons.mpr ⟨known, binds⟩
  · exact opens.define name v

theorem mono {fewer : List Name} (opens : s.Opens outer names) (subset : fewer ⊆ names) :
    s.Opens outer fewer := by
  obtain ⟨scope, frames, empty, binds⟩ := opens.frames
  exact ⟨⟨scope, frames, empty, fun x member => binds x (subset member)⟩, opens.globals,
    opens.constants⟩

end Scopes.Opens

/-- The names that the frame of a call has before the first statement of the body runs. -/
def Procedure.opened (decl : Procedure) : List Name :=
  blockScalars decl.body ++ if decl.kind.returnsValue then [decl.name] else []

namespace Interpreter

variable {outer : Scopes} {names : List Name} {m : Machine}

theorem exec_bindParams (params : List Param) (values : List Value)
    (opens : m.scopes.Opens outer names) :
    ∃ m', (bindParams params values).exec m = (.ok ⟨⟩, m') ∧ m'.scopes.Opens outer names := by
  induction params generalizing values m names with
  | nil => exact ⟨m, rfl, opens⟩
  | cons param params ih =>
    -- The value is copied or not; either way a variable is created next.
    have bound : ∀ (m : Machine) (v : Value), m.scopes.Opens outer names →
        ∃ m', (Run.modifyScopes (·.define param.name v) >>= fun _ =>
          bindParams params values.tail).exec m = (.ok ⟨⟩, m') ∧ m'.scopes.Opens outer names := by
      intro m v opens
      obtain ⟨s', done, opens⟩ := opens.define param.name v
      obtain ⟨m', rest, opens⟩ := ih values.tail (m := { m with scopes := s' }) opens
      refine ⟨m', ?_, opens.mono (List.subset_cons_self _ _)⟩
      rw [Run.exec_bind_ok (exec_modifyScopes done), rest]
    rw [bindParams]
    cases param.byVal with
    | false => exact bound m _ opens
    | true => exact bound { m with heap := (m.heap.deepCopy (values.headD .empty)).1 } _ opens

theorem exec_declareAll (scalars : List Name) (opens : m.scopes.Opens outer names) :
    ∃ m', (scalars.forM fun name => Run.modifyScopes (·.declare name .empty)).exec m =
      (.ok ⟨⟩, m') ∧ m'.scopes.Opens outer (scalars ++ names) := by
  induction scalars generalizing m names with
  | nil => exact ⟨m, rfl, opens⟩
  | cons name scalars ih =>
    obtain ⟨s', done, opens⟩ := opens.declare name .empty
    obtain ⟨m', rest, opens⟩ := ih (m := { m with scopes := s' }) opens
    exact ⟨m', (Run.exec_bind_ok (exec_modifyScopes done)).trans rest,
      opens.mono List.perm_middle.symm.subset⟩

theorem exec_hoistScalars (block : Block) (opens : m.scopes.Opens outer names) :
    ∃ m', (hoistScalars block).exec m = (.ok ⟨⟩, m') ∧
      m'.scopes.Opens outer (blockScalars block ++ names) :=
  exec_declareAll (blockScalars block) opens

theorem exec_openFrame (decl : Procedure) (this : Option InstanceRef) (values : List Value)
    (m : Machine) :
    ∃ m', (openFrame decl values).exec (enter decl this m) = (.ok ⟨⟩, m') ∧
      m'.scopes.Opens m.scopes decl.opened := by
  have entered : (enter decl this m).scopes.Opens m.scopes [] :=
    ⟨⟨{}, rfl, rfl, nofun⟩, rfl, rfl⟩
  obtain ⟨m₁, bound, opens⟩ := exec_bindParams decl.params values entered
  rw [openFrame, Run.exec_bind_ok bound, Procedure.opened]
  cases decl.kind.returnsValue with
  | false => exact exec_hoistScalars decl.body opens
  | true =>
    obtain ⟨s, done, opens⟩ := opens.define decl.name .empty
    obtain ⟨m', hoisted, opens⟩ := exec_hoistScalars decl.body (m := { m₁ with scopes := s }) opens
    exact ⟨m', (Run.exec_bind_ok (exec_modifyScopes done)).trans hoisted, opens⟩

theorem Issues.body {ev : Interpreter} {decl : Procedure} {this : Option InstanceRef}
    {values : List Value} {task : Task} {m' : Machine}
    (issues : ev.Issues (.invoke decl this values) m task m') :
    (openFrame decl values).exec (enter decl this m) = (.ok ⟨⟩, m') := by
  obtain ⟨stop, differs⟩ := issues
  obtain ⟨opened, done, -⟩ := exec_openFrame decl this values m
  rw [done]
  by_contra other
  refine differs ?_
  have same : ((ev.refusing task m' stop).block decl.body).exec opened =
      (ev.block decl.body).exec opened := by
    refine Run.exec_stopAt_of_not ?_ _ stop
    rintro ⟨-, rfl⟩
    exact other rfl
  change (invokeProcedure (ev.refusing task m' stop) decl this values).exec m =
    (invokeProcedure ev decl this values).exec m
  simp only [exec_invokeProcedure, exec_runBody _ done, Run.exec_bind, same]

end Interpreter

/-- A name is bound alike in all frames and outside of procedures. -/
structure Scopes.SameBindings (x : Name) (s s' : Scopes) : Prop where
  frames : s'.frames.map (Scope.binding x) = s.frames.map (Scope.binding x)
  global : s'.global? x = s.global? x
  constant : lookupName x s'.constants = lookupName x s.constants

def Scopes.HasLocal (s : Scopes) (x : Name) : Prop :=
  ∃ scope rest, s.frames = scope :: rest ∧ scope.Binds x

namespace Scopes

variable {x : Name} {s s' outer : Scopes} {names : List Name}

theorem Opens.shields (opens : s.Opens outer names) (member : x ∈ names) : s.Shields x outer := by
  obtain ⟨scope, frames, -, binds⟩ := opens.frames
  refine ⟨?_, congrArg (lookupName x) opens.globals, congrArg (lookupName x) opens.constants⟩
  rw [frames]
  exact .here (binds x member) rfl

theorem Opens.hasLocal (opens : s.Opens outer names) (member : x ∈ names) : s.HasLocal x := by
  obtain ⟨scope, frames, -, binds⟩ := opens.frames
  exact ⟨scope, outer.frames, frames, binds x member⟩

/-- A frame that has the variable shields it from the frames below. -/
theorem HasLocal.shields (has : s.HasLocal x) : s.Shields x s.pop := by
  obtain ⟨scope, rest, frames, binds⟩ := has
  refine ⟨?_, rfl, rfl⟩
  rw [pop, frames]
  exact .here binds rfl

theorem HasLocal.depth_pop (has : s.HasLocal x) : s.depth = s.pop.depth + 1 := by
  obtain ⟨scope, rest, frames, -⟩ := has
  simp [depth, pop, frames]

theorem Shields.hasLocal (shields : s.Shields x outer) (depth : s.depth = outer.depth + 1) :
    s.HasLocal x := by
  obtain ⟨scope, rest, frames, binds, -⟩ :=
    shields.frames.innermost (by simpa [Scopes.depth] using depth)
  exact ⟨scope, rest, frames, binds⟩

theorem Shields.sameBindings (shields : s.Shields x outer) (depth : s.depth = outer.depth + 1) :
    outer.SameBindings x s.pop := by
  obtain ⟨scope, rest, frames, -, same⟩ :=
    shields.frames.innermost (by simpa [Scopes.depth] using depth)
  refine ⟨?_, shields.global, shields.constant⟩
  rw [pop, frames]
  exact same

theorem HasLocal.declare (has : s.HasLocal x) (v : Value) : s.declare x v = .ok s := by
  obtain ⟨scope, rest, frames, binds⟩ := has
  have known : (s.local? x).isSome := by
    rw [Scopes.local?, frames]
    exact binds
  rw [Scopes.declare, if_pos known]

end Scopes

namespace Interpreter

variable {x : Name} {m : Machine}

theorem sameBindings_invokeProcedure (n : Nat) {decl : Procedure} (this : Option InstanceRef)
    (values : List Value) (declared : x ∈ blockScalars decl.body) :
    m.scopes.SameBindings x ((invokeProcedure (within n) decl this values).exec m).2.scopes := by
  rw [exec_invokeProcedure]
  split
  · exact ⟨rfl, rfl, rfl⟩
  · obtain ⟨opened, done, opens⟩ := exec_openFrame decl this values m
    have run := ((shieldRegime x m.scopes).sound_within n []).block decl.body trivial opened
      (opens.shields (List.mem_append_left _ declared))
    obtain ⟨shields, depth⟩ := run.step
    have below : (((within n).block decl.body).exec opened).2.scopes.depth =
        m.scopes.depth + 1 := by
      obtain ⟨scope, frames, -⟩ := opens.frames
      rw [depth, Scopes.depth, frames]
      rfl
    have after : ((runBody (within n) decl values).exec (enter decl this m)).2 =
        (((within n).block decl.body).exec opened).2 := by
      rw [exec_runBody _ done, Run.exec_bind]
      split <;> rfl
    rw [after]
    have same := Scopes.Shields.sameBindings shields below
    exact ⟨same.frames, same.global, same.constant⟩

theorem sameBindings_invoke (n : Nat) {decl : Procedure} (this : Option InstanceRef)
    (values : List Value) (declared : x ∈ blockScalars decl.body) :
    m.scopes.SameBindings x (((within n).invoke decl this values).exec m).2.scopes := by
  cases n with
  | zero => exact ⟨rfl, rfl, rfl⟩
  | succ n => exact sameBindings_invokeProcedure n this values declared

/-- The variables of a declaration without the scalar of a name. -/
def withoutScalar (x : Name) (decls : List VarDecl) : List VarDecl :=
  decls.filter fun decl => ¬(decl.name = x ∧ decl.dims = none)

theorem execDim_cons (ev : Interpreter) (decl : VarDecl) (decls : List VarDecl) :
    execDim ev (decl :: decls) = execDim ev [decl] >>= fun _ => execDim ev decls := by
  simp [execDim, bind_assoc]

theorem hasLocal_execDim (n : Nat) (decls : List VarDecl) (has : m.scopes.HasLocal x) :
    (((within n).execDim decls).exec m).2.scopes.HasLocal x := by
  have sound := (shieldRegime x m.scopes.pop).sound_within n []
  have fits : (shieldRegime x m.scopes.pop).fits [] [⟨.dim decls, {}⟩] := trivial
  have admits := sound.admits fits _ (List.mem_singleton_self _)
  obtain ⟨shields, depth⟩ := (StmtJudgement.holds_execDim admits m has.shields).step
  exact Scopes.Shields.hasLocal shields (depth.trans has.depth_pop)

theorem exec_execDim (n : Nat) (decls : List VarDecl) (has : m.scopes.HasLocal x) :
    ((within n).execDim decls).exec m = ((within n).execDim (withoutScalar x decls)).exec m := by
  induction decls generalizing m with
  | nil => rfl
  | cons decl decls ih =>
    by_cases scalar : decl.name = x ∧ decl.dims = none
    · have skipped : withoutScalar x (decl :: decls) = withoutScalar x decls :=
        List.filter_cons_of_neg (by simp [scalar])
      have first : (execDim (within n) [decl]).exec m = (.ok ⟨⟩, m) := by
        obtain ⟨name, dims⟩ := decl
        obtain ⟨rfl, rfl⟩ := scalar
        have declared : (Run.modifyScopes (·.declare name .empty)).exec m = (.ok ⟨⟩, m) :=
          exec_modifyScopes (has.declare .empty)
        exact Run.exec_bind_ok declared
      rw [skipped, execDim_cons, Run.exec_bind_ok first]
      exact ih has
    · have kept : withoutScalar x (decl :: decls) = decl :: withoutScalar x decls :=
        List.filter_cons_of_pos (decide_eq_true scalar)
      rw [kept, execDim_cons _ decl decls, execDim_cons _ decl (withoutScalar x decls)]
      refine Run.exec_bind_congr fun _ m' done => ih ?_
      have after := hasLocal_execDim n [decl] has
      rw [done] at after
      exact after

theorem exec_execStmt_dim (n : Nat) (decls : List VarDecl) (range : Range)
    (has : m.scopes.HasLocal x) :
    ((within n).execStmt ⟨.dim decls, range⟩).exec m =
      ((within n).execStmt ⟨.dim (withoutScalar x decls), range⟩).exec m := by
  have body : ∀ decls : List VarDecl,
      (Run.checkDeadline >>= fun _ => execKind (within n) (.dim decls)).exec m =
        (Run.checkDeadline >>= fun _ => execKind (within n) (.dim (withoutScalar x decls))).exec
          m := by
    intro decls
    refine Run.exec_bind_congr fun _ m' done => ?_
    have moved : m.Moves .any m' := by
      have moved := Run.Worldly.checkDeadline.moves m m.carries_any
      rwa [done] at moved
    have still : m'.scopes.HasLocal x := moved.scopes ▸ has
    rw [execKind, execKind, normally, normally, Run.exec_bind, exec_execDim n decls still,
      ← Run.exec_bind]
  rw [execStmt, execStmt, Run.exec_get_bind, Run.exec_get_bind]
  split
  · rfl
  · rw [Run.exec_bind, exec_settle, body decls, ← exec_settle, ← Run.exec_bind]

end Interpreter

namespace Stage.Reachable

variable {x : Name} {s s' : Stage}

theorem depth_eq (reachable : s.Reachable) : s.state.scopes.depth = s.chain.length :=
  (reachable.fit default).frames.length_eq.symm

theorem hasLocal_of_leads (before : s.Reachable) (leads : s.Leads s')
    (chain : s'.chain = s.chain) (has : s.state.scopes.HasLocal x) :
    s'.state.scopes.HasLocal x := by
  have fits : (shieldRegime x s.state.scopes.pop).fitsTask s.chain s.task := by
    cases s.task <;> trivial
  have shields := ((shieldRegime x s.state.scopes.pop).leads leads has.shields fits).1
  refine Scopes.Shields.hasLocal shields ?_
  rw [(before.step leads).depth_eq, chain, ← before.depth_eq, has.depth_pop]

theorem hasLocal_of_opened (reachable : s.Reachable) {decl : Procedure}
    (running : s.chain.head? = some decl) (opened : x ∈ decl.opened) :
    s.state.scopes.HasLocal x := by
  induction reachable with
  | start rest => cases running
  | look before ih => exact ih running
  | step before leads ih =>
    cases leads with
    | @issue n chain task m task' m' issues =>
      cases task with
      | invoke callee this values =>
        obtain rfl := Option.some.inj running
        obtain ⟨m₁, done, opens⟩ := Interpreter.exec_openFrame callee this values m
        rw [issues.body] at done
        obtain rfl := (Prod.mk.inj done).2
        exact opens.hasLocal opened
      | _ => exact before.hasLocal_of_leads (.issue issues) rfl (ih running)
    | next ends => exact before.hasLocal_of_leads (.next ends) rfl (ih running)

theorem hasLocal (reachable : s.Reachable) {decl : Procedure} (running : s.chain.head? = some decl)
    (declared : x ∈ blockScalars decl.body) : s.state.scopes.HasLocal x :=
  reachable.hasLocal_of_opened running (List.mem_append_left _ declared)

end Stage.Reachable

/-- Locals never leak. Let the body of a procedure declare a name as a scalar, at any depth of
nesting. A call of the procedure from any state, whatever it calls and however it ends, leaves what
the name is bound to in every frame below its own and outside of procedures. At every stage of a
run at which the procedure is the innermost one, a declaration is run as if the name were not among
its scalars, so that the variable is never reset. -/
theorem locals_never_leak {x : Name} {decl : Procedure} (declares : DeclaresScalar x decl.body) :
    (∀ (n : Nat) (m : Machine) (this : Option InstanceRef) (values : List Value),
      m.scopes.SameBindings x
        (((Interpreter.within n).invoke decl this values).exec m).2.scopes) ∧
    ∀ s : Stage, s.Reachable → s.chain.head? = some decl →
      ∀ (n : Nat) (decls : List VarDecl) (range : Range),
        ((Interpreter.within n).execStmt ⟨.dim decls, range⟩).exec s.state =
          ((Interpreter.within n).execStmt
            ⟨.dim (Interpreter.withoutScalar x decls), range⟩).exec s.state := by
  refine ⟨fun n m this values => ?_, fun s reachable running n decls range => ?_⟩
  · exact Interpreter.sameBindings_invoke n this values declares.mem_blockScalars
  · have bound := reachable.hasLocal running declares.mem_blockScalars
    exact Interpreter.exec_execStmt_dim n decls range bound

namespace LateDim

def x : Name := ⟨"x"⟩

/-- `x = 1`, then `If True Then Dim x`: the variable is used before its nested declaration. -/
def decl : Procedure :=
  ⟨⟨"late"⟩, .sub, .everyone, false, [],
    [⟨.assign (.ident x) (.literal (.integer 1)) false, {}⟩,
      ⟨.choose [⟨.literal (.bool true), [⟨.dim [{ name := x }], {}⟩]⟩] none, {}⟩]⟩

def caller : Machine :=
  { scopes := { frames := [{ locals := [(x, .integer 5)] }], globals := [(x, .integer 7)] }
    callDepth := 1 }

end LateDim

theorem late_dim_stays_local :
    DeclaresScalar LateDim.x LateDim.decl.body ∧
      LateDim.caller.scopes.SameBindings LateDim.x
        ((Script.interpreter.invoke LateDim.decl none []).exec LateDim.caller).2.scopes := by
  have declares : DeclaresScalar LateDim.x LateDim.decl.body :=
    .inner (List.mem_cons_of_mem _ List.mem_cons_self) List.mem_cons_self
      (.dim List.mem_cons_self rfl List.mem_cons_self rfl rfl)
  exact ⟨declares, (locals_never_leak declares).1 _ _ _ _⟩

end ServerScript
