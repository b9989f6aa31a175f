import ServerScript.Proofs.Reachability

/-! Runs in a realm. A realm of values is kept up if its states stand each step that changes names,
calls, `With` blocks, running property reads or the error mode, and each computation on the store
and the world outside. The rules are then a walk through the realm, and by induction on the bound on
the recursion everything that the interpreter runs keeps to the realm. Since a task that does not
fit is never met, every stage that a stage leads to fits too, and every state that a run goes
through. -/
namespace ServerScript

open Relation

/-- The state with a copy of a value in its store. -/
def Machine.copied (m : Machine) (v : Value) : Machine := { m with heap := (m.heap.deepCopy v).1 }

variable {p : Policy}

namespace ValueRealm

def keeps (T : ValueRealm p) : Walk Bool T where
  holds := T.Keeps
  bind := .bind
  read _ result := .read fun m fits known => result m _ known (T.supplies fits)
  throw _ := .throw _

structure Upkeep (T : ValueRealm p) : Prop where
  released : ∀ {r r' m}, T.Extends r r' → T.state r' m → T.state r m
  given : ∀ {r r' m v}, T.Extends r r' → T.state r' m → T.owned r r' (T.world m.heap) v →
    T.value r (T.world m.heap) v
  setsAside : ∀ {r m v}, T.state r m → T.value r (T.world m.heap) v → ∃ r', T.Extends r r' ∧
    T.state r' (m.copied v) ∧ T.world m.heap ≤ T.world (m.copied v).heap ∧
    T.owned r r' (T.world (m.copied v).heap) (m.heap.deepCopy v).2
  define : ∀ {r} {m : Machine} {name v s}, T.state r m → T.value r (T.world m.heap) v →
    m.scopes.define name v = .ok s → T.state r { m with scopes := s }
  constant : ∀ {r} {m : Machine} {name v s}, T.state r m → T.value r (T.world m.heap) v →
    m.scopes.setConstant name v = .ok s → T.state r { m with scopes := s }
  assign : ∀ {r} {m : Machine} {name v scopes heap result}, T.state r m →
    T.value r (T.world m.heap) v →
    m.scopes.assign m.heap name v = .ok (scopes, heap, result) →
    T.state r { m with scopes, heap } ∧ T.world m.heap ≤ T.world heap
  enterGetter : ∀ {r} {m : Machine} cell name, T.state r m →
    T.state r (m.enterGetter cell name) ∧ T.world m.heap ≤ T.world (m.enterGetter cell name).heap
  leaveGetter : ∀ {r} {m : Machine} cell name, T.state r m →
    T.state r (m.leaveGetter cell name) ∧ T.world m.heap ≤ T.world (m.leaveGetter cell name).heap
  enterWith : ∀ {r} {m : Machine} {target}, T.state r m → T.value r (T.world m.heap) target →
    T.state r (m.enterWith target)
  leaveWith : ∀ {r} {m : Machine}, T.state r m → T.state r m.leaveWith
  errorMode : ∀ {r} {m : Machine} resumeNext err errorRange, T.state r m →
    T.state r { m with resumeNext, err, errorRange }
  compareMode : ∀ {r} {m : Machine} mode, T.state r m →
    T.state r { m with scopes := { m.scopes with compareMode := mode } }
  enter : ∀ {r} {m : Machine} {decl this}, T.state r m → p.procedure decl →
    (∀ ref, this = some ref → T.value r (T.world m.heap) ref.value) →
    T.state r (Interpreter.enter decl this m)
  leave : ∀ {r} {m m' : Machine}, T.state r m → T.state r m' →
    T.world m.heap ≤ T.world m'.heap → T.state r (Interpreter.leave (.ofMachine m) m')
  creates : ∀ {r w cls fields}, p.cls cls → fields.map (·.1) = cls.fields.map (·.1) →
    Frame.All (T.value r w) fields →
    T.Keeps r w (fun w' cell => T.value r w' (.inst cell cls)) fun _ =>
      Run.onHeap (·.allocInstance { fields })
  effects : T.keeps.Effects T.Delivers
  code : ∀ kind : StmtKind, kind.Obeys p

namespace Upkeep

variable {T : ValueRealm p} {r r' : T.Reserve} {w : T.World} {name : Name} {v : Value}

theorem keeps_define (U : T.Upkeep) (usable : T.value r w v) :
    T.Keeps r w (fun _ _ => True) fun _ => Run.modifyScopes (·.define name v) := by
  refine .modifyScopes fun m scopes fits known done => ?_
  exact U.define fits (T.mono usable known) done

theorem keeps_extend (U : T.Upkeep) (usable : T.value r w v) :
    T.Keeps r w (fun _ _ => True) fun _ => Run.extend name v := by
  refine .bind (T.keeps.resolve name) fun w' le resolved _ => ?_
  cases resolved with
  | missing =>
    refine .bind (U.keeps_define (T.mono usable le)) fun w'' le' _ _ => ?_
    exact .pure fun _ _ => trivial
  | _ => exact .pure fun _ _ => trivial

theorem keeps_assign (U : T.Upkeep) (usable : T.value r w v) :
    T.Keeps r w (T.assigned r) fun _ =>
      Run.assignWith fun scopes h => scopes.assign h name v := by
  intro m fits known
  cases done : m.scopes.assign m.heap name v with
  | error e =>
    have ends : (Run.assignWith fun scopes h => scopes.assign h name v).exec m =
        (.error (.error e), m) := by
      rw [Run.assignWith, Run.exec_get_bind, done]
      rfl
    refine .unchanged ends ends fits ?_
    rintro result ⟨⟩
  | ok written =>
    obtain ⟨scopes, heap, assigned⟩ := written
    have ends : (Run.assignWith fun scopes h => scopes.assign h name v).exec m =
        (.ok assigned, { m with scopes, heap }) := by
      rw [Run.assignWith, Run.exec_get_bind, done]
      rfl
    obtain ⟨after, grows⟩ := U.assign fits (T.mono usable known) done
    refine ⟨rfl, ?_, ?_, ?_⟩ <;> dsimp only <;> rw [ends]
    · exact after
    · exact grows
    · rintro result ⟨⟩
      obtain ⟨-, -, rfl⟩ | ⟨-, -, -, rfl⟩ | ⟨ref, -, -, rfl⟩ | ⟨ref, isMe, -, -, rfl⟩ :=
        Scopes.assign_cases done
      · trivial
      · trivial
      · trivial
      · exact T.mono ((T.supplies fits).me ref isMe) grows

/-- An array is copied, and the copy is set aside until it is delivered. -/
theorem keeps_setsAside (U : T.Upkeep) (usable : T.value r w v) {f : Bool → Value → Run α}
    (next : ∀ r' w' u, w ≤ w' → T.Extends r r' → T.owned r r' w' u →
      T.Delivers r r' w' fun i => f i u) :
    T.Keeps r w (fun _ _ => True) fun i => Run.deepCopy v >>= f i := by
  intro m fits known
  obtain ⟨r', more, after, grows, owned⟩ := U.setsAside fits (T.mono usable known)
  have kept := next r' _ _ (le_trans known grows) more owned (m.copied v) after le_rfl
  exact ⟨kept.same, kept.state, le_trans grows kept.grows, kept.result⟩

def exprs (U : T.Upkeep) : ExprWalk Bool T where
  toWalk := T.keeps
  delivers := T.Delivers
  delivers_bind more first next := .bind (fun _ => U.released more) first next
  delivers_then first next := .andThen first next
  delivers_of_holds more holds := fun m fits known => holds m (U.released more fits) known
  gives more owned next := fun m fits known =>
    next _ known (U.given more fits (T.owned_mono owned known)) m (U.released more fits) le_rfl
  holds_of_delivers delivers := delivers.toKeeps
  setsAside usable next := U.keeps_setsAside usable next
  assign _ usable := U.keeps_assign usable
  guarded holds := .guardGetter (fun _ => T.empty) (fun _ _ _ le usable => T.mono usable le)
    (fun _ => U.enterGetter _ _) (fun _ => U.leaveGetter _ _) holds
  effects := U.effects

def walk (U : T.Upkeep) : BlockWalk Bool T where
  toWalk := T.keeps
  exprs := U.exprs
  declares _ := True
  modes _ := True
  lift holds := holds
  define _ usable := U.keeps_define usable
  constant _ usable := .modifyScopes fun _ _ fits known done =>
    U.constant fits (T.mono usable known) done
  extend _ usable := U.keeps_extend usable
  inside usable holds := .inside (fun _ fits known => U.enterWith fits (T.mono usable known))
    (fun _ => U.leaveWith) holds
  errorMode {_ _ resumeNext} _ := .modify fun m fits _ =>
    ⟨U.errorMode resumeNext {} m.errorRange fits, le_rfl⟩
  compareMode mode := .modify fun _ fits _ => ⟨U.compareMode mode fits, le_rfl⟩
  settle _ holds := .settle (fun _ _ _ _ fits => U.errorMode _ _ _ fits) holds

/-- Two interpreters that cannot be told apart and keep to the realm. -/
structure Sound (U : T.Upkeep) (ev : Bool → Interpreter) : Prop where
  expr : ∀ e, U.exprs.Evaluates ev e
  block : ∀ block, U.walk.Runs ev block
  invoke : U.exprs.Invokes ev
  store : U.exprs.Stores ev
  fuel : ∃ fuel, ∀ i, (ev i).fuel = fuel

variable {U : T.Upkeep} {ev : Bool → Interpreter}

namespace Sound

theorem serves (sound : U.Sound ev) : U.walk.Serves ev :=
  ⟨sound.invoke, sound.store, fun _ => sound.fuel⟩

theorem admits (sound : U.Sound ev) (kind : StmtKind) : U.walk.Admits ev kind :=
  ⟨fun e _ => sound.expr e, fun body _ => sound.block body, fun _ _ => trivial, fun _ _ => trivial,
    U.code kind⟩

theorem evalExpr (sound : U.Sound ev) (e : Expr) :
    T.Keeps r w (T.value r) fun i => (ev i).evalExpr e := by
  have parts : ∀ part ∈ e.parts, U.exprs.Evaluates ev part := fun part _ => sound.expr part
  exact ExprWalk.evalExpr (J := U.exprs) sound.invoke parts
    (fun _ _ _ _ allowed names usable => U.creates allowed names usable)
    fun _ _ _ _ bound _ => sound.expr bound

theorem execStmt (sound : U.Sound ev) (stmt : Stmt) :
    T.Keeps r w (fun _ _ => True) fun i => (ev i).execStmt stmt :=
  BlockWalk.execStmt sound.serves (sound.admits stmt.kind)

theorem execBlock (sound : U.Sound ev) (block : Block) :
    T.Keeps r w (fun _ _ => True) fun i => (ev i).execBlock block :=
  BlockWalk.execBlock sound.serves fun stmt _ => sound.admits stmt.kind

theorem invokeProcedure (sound : U.Sound ev) {decl : Procedure} {this : Option InstanceRef}
    {values : List Value} (allowed : p.procedure decl)
    (current : ∀ ref, this = some ref → T.value r w ref.value)
    (given : ∀ v ∈ values, T.value r w v) :
    T.Keeps r w (T.invocation r) fun i => (ev i).invokeProcedure decl this values := by
  refine .invoke (fun m fits known => ?_) (fun m m' fits inner grows => U.leave fits inner grows) ?_
  · exact U.enter fits allowed fun ref same => T.mono (current ref same) known
  · exact StmtWalk.runBody (J := U.walk.toStmtWalk) (fun _ _ => trivial) (fun _ => trivial)
      (fun _ _ => trivial) given (sound.block decl.body)

theorem storeElement (sound : U.Sound ev) {container value : Value} {index : List Value}
    (more : T.Extends r r') (target : T.value r' w container)
    (indexed : ∀ v ∈ index, T.value r' w v) (owned : T.owned r r' w value) :
    T.Delivers r r' w fun i => (ev i).storeElement container index value name := by
  refine ExprWalk.storeElement (J := U.exprs) sound.invoke ?_ more target indexed owned ?_
  · exact fun _ _ => U.code (.erase [])
  · exact fun _ _ member _ _ _ => sound.store r r' w index value member more indexed owned

theorem hoist (U : T.Upkeep) (program : Block) :
    T.Keeps r w (fun _ _ => True) fun _ => Interpreter.hoist program :=
  StmtWalk.hoist (J := U.walk.toStmtWalk) program (fun _ _ _ _ => trivial)
    fun stmt _ => U.code stmt.kind

end Sound

theorem sound_within (U : T.Upkeep) (n : Nat) : U.Sound fun _ => Interpreter.within n := by
  induction n with
  | zero =>
    refine ⟨fun _ _ _ => .throw _, fun _ _ _ => .throw _, fun _ _ _ _ _ _ _ _ => .throw _, ?_,
      0, fun _ => rfl⟩
    intro r r' w index value name more indexed owned w' container le usable m fits known
    exact Realm.Keeps.throw _ m (U.released more fits) known
  | succ n ih =>
    refine ⟨fun e _ _ => ih.evalExpr e, fun block _ _ => ih.execBlock block,
      fun _ _ _ _ _ allowed current given => ih.invokeProcedure allowed current given, ?_,
      n + 1, fun _ => rfl⟩
    intro r r' w index value name more indexed owned w' container le usable
    exact ih.storeElement more usable (T.monos indexed le) (T.owned_mono owned le)

end Upkeep

/-- The values of a task may be used; the one that it stores is set aside beyond a smaller
reserve. -/
def Fits (T : ValueRealm p) (r r' : T.Reserve) (w : T.World) : Task → Prop
  | .expr _ | .block _ => True
  | .invoke decl this values => p.procedure decl ∧
    (∀ ref, this = some ref → T.value r' w ref.value) ∧ ∀ v ∈ values, T.value r' w v
  | .store container index value _ =>
    T.value r' w container ∧ (∀ v ∈ index, T.value r' w v) ∧ T.owned r r' w value

def Guarded (T : ValueRealm p) (task : Task) (m : Machine) : Prop :=
  ∃ r r' : T.Reserve, T.Extends r r' ∧ T.state r' m ∧ T.Fits r r' (T.world m.heap) task

namespace Upkeep

variable {T : ValueRealm p} {U : T.Upkeep} {task : Task} {m : Machine}

theorem Sound.rules {ev : Bool → Interpreter} (sound : U.Sound ev) (guarded : T.Guarded task m) :
    ∃ r : T.Reserve,
      T.Kept r (fun _ _ => True) ((ev false).rules task) ((ev true).rules task) m := by
  obtain ⟨r, r', more, fits, usable⟩ := guarded
  cases task with
  | expr e => exact ⟨r', (sound.evalExpr e).any m fits le_rfl⟩
  | block block => exact ⟨r', sound.execBlock block m fits le_rfl⟩
  | invoke decl this values =>
    obtain ⟨allowed, current, given⟩ := usable
    exact ⟨r', (sound.invokeProcedure allowed current given).any m fits le_rfl⟩
  | store container index value name =>
    obtain ⟨target, indexed, owned⟩ := usable
    exact ⟨r, sound.storeElement more target indexed owned m fits le_rfl⟩

theorem kept_stopAt {r : T.Reserve} {Q : T.World → α → Prop} {x y : Run α} {P : Machine → Prop}
    {stop : Stop} (kept : T.Kept r Q x y m) (other : ¬P m) :
    T.Kept r Q (x.stopAt P stop) y m := by
  refine ⟨?_, kept.state, kept.grows, kept.result⟩
  rw [Run.exec_stopAt_of_not other x stop, kept.same]

theorem sound_refusing (U : T.Upkeep) (n : Nat) {state : Machine} (stop : Stop)
    (loose : ¬T.Guarded task state) :
    U.Sound fun i => bif i then Interpreter.within n
      else (Interpreter.within n).refusing task state stop := by
  have all := U.sound_within n
  refine ⟨fun e r w m fits known => ?_, fun block r w m fits known => ?_,
    fun r w decl this values allowed current given m fits known => ?_,
    fun r r' w index value name more indexed owned w' container le usable m fits known => ?_,
    n, fun i => by cases i <;> rfl⟩
  · refine kept_stopAt (all.expr e r w m fits known) ?_
    rintro ⟨rfl, rfl⟩
    exact loose ⟨r, r, T.extends_refl r, fits, trivial⟩
  · refine kept_stopAt (all.block block r w m fits known) ?_
    rintro ⟨rfl, rfl⟩
    exact loose ⟨r, r, T.extends_refl r, fits, trivial⟩
  · refine kept_stopAt (all.invoke r w decl this values allowed current given m fits known) ?_
    rintro ⟨rfl, rfl⟩
    exact loose ⟨r, r, T.extends_refl r, fits, allowed,
      fun ref same => T.mono (current ref same) known, T.monos given known⟩
  · refine kept_stopAt (all.store r r' w index value name more indexed owned w' container le usable
      m fits known) ?_
    rintro ⟨rfl, rfl⟩
    exact loose ⟨r, r', more, fits, T.mono usable known, T.monos indexed (le_trans le known),
      T.owned_mono owned (le_trans le known)⟩

end Upkeep
end ValueRealm

namespace Stage

variable {T : ValueRealm p} {s s' : Stage} {m : Machine}

theorem Leads.guarded (U : T.Upkeep) (leads : s.Leads s') (guarded : T.Guarded s.task s.state) :
    T.Guarded s'.task s'.state := by
  cases leads with
  | @issue n chain task m task' m' issues =>
    obtain ⟨stop, differs⟩ := issues
    by_contra loose
    obtain ⟨r, kept⟩ := (U.sound_refusing n stop loose).rules guarded
    exact differs kept.same
  | @next n chain stmt rest m m' ends =>
    obtain ⟨-, r, -, fits, -⟩ := guarded
    have kept := (U.sound_within n).execStmt stmt (r := r) m fits le_rfl
    have state := kept.state
    rw [ends] at state
    exact ⟨r, r, T.extends_refl r, state, trivial⟩

/-- The states that a run goes through: those at which its tasks start and end. -/
def Passes (s : Stage) (m : Machine) : Prop :=
  ∃ s', ReflTransGen Leads s s' ∧
    (m = s'.state ∨ m = (((Interpreter.within s'.bound).run s'.task).exec s'.state).2)

theorem Passes.induction {P : Stage → Prop} {Q : Machine → Prop} (passes : s.Passes m)
    (start : P s) (leads : ∀ {t u}, P t → t.Leads u → P u) (begins : ∀ {t}, P t → Q t.state)
    (ends : ∀ {n chain task m}, P ⟨n, chain, task, m⟩ →
      Q (((Interpreter.within n).run task).exec m).2) : Q m := by
  obtain ⟨t, path, here⟩ := passes
  have there : P t := by
    clear here
    induction path with
    | refl => exact start
    | tail _ last ih => exact leads ih last
  rcases here with rfl | rfl
  · exact begins there
  · exact ends there

theorem Passes.fits (U : T.Upkeep) (passes : s.Passes m) (guarded : T.Guarded s.task s.state) :
    ∃ r : T.Reserve, T.state r m := by
  refine passes.induction (P := fun s => T.Guarded s.task s.state)
    (Q := fun m => ∃ r : T.Reserve, T.state r m) guarded
    (fun guarded leads => leads.guarded U guarded) ?_ ?_
  · rintro t ⟨-, r, -, fits, -⟩
    exact ⟨r, fits⟩
  · intro n chain task m guarded
    cases n with
    | zero =>
      obtain ⟨-, r, -, fits, -⟩ := guarded
      exact ⟨r, by cases task <;> exact fits⟩
    | succ n =>
      obtain ⟨r, kept⟩ := (U.sound_within n).rules guarded
      rw [Interpreter.run_within_succ]
      exact ⟨r, kept.state⟩

end Stage
end ServerScript
