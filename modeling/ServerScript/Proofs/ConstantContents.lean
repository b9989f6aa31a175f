import ServerScript.Proofs.AcyclicArrays
import ServerScript.Proofs.ConstantTables
import ServerScript.Proofs.Frames
import ServerScript.Proofs.InPlaceWrites

/-! What a constant keeps. Whatever is run after its declaration, a constant has the value that it
was declared with as long as its level is there; a name is looked for among the constants first, so
it reads as that value unless a frame further in has a constant of the same name. The value of an
array is the array itself and no copy of it. Its bounds and elements, at every depth, are those of
the declaration as long as none of its arrays is written in place, under whatever name. -/
namespace ServerScript

open Relation

namespace Scopes

variable {s s' : Scopes} {h : Heap} {level : Level} {name : Name} {v : Value}

def innermost (s : Scopes) : Level :=
  match s.frames with
  | [] => .top
  | _ :: rest => .frame rest.length

theorem isSome_at?_of_constantAt? (bound : s.constantAt? level name = some v)
    (depth : s.depth ≤ s'.depth) : (s'.at? level).isSome := by
  obtain ⟨scope, here, -⟩ := Option.bind_eq_some_iff.mp bound
  cases level with
  | top => rfl
  | frame number =>
    obtain ⟨small, -⟩ := List.getElem?_eq_some_iff.mp here
    rw [List.length_reverse] at small
    have deep : number < s'.frames.length := Nat.lt_of_lt_of_le small depth
    simp [at?, deep]

theorem findSome?_constants {frames : List Scope} {number : Nat} {scope : Scope}
    (here : frames.reverse[number]? = some scope) (found : lookupName name scope.constants = some v)
    (uncovered : ∀ inner scope, number < inner → frames.reverse[inner]? = some scope →
      lookupName name scope.constants = none) :
    (frames.findSome? fun scope => lookupName name scope.constants) = some v := by
  induction frames with
  | nil => simp at here
  | cons first rest ih =>
    rw [List.reverse_cons] at here uncovered
    have last : (rest.reverse ++ [first])[rest.length]? = some first := by simp
    obtain inside | ⟨rfl⟩ | outside := Nat.lt_trichotomy number rest.length
    · have free := uncovered rest.length first inside last
      rw [List.getElem?_append_left (by simpa using inside)] at here
      rw [List.findSome?_cons_of_isNone (by simp [free])]
      refine ih here fun inner scope deeper known => uncovered inner scope deeper ?_
      obtain ⟨bound, -⟩ := List.getElem?_eq_some_iff.mp known
      rwa [List.getElem?_append_left bound]
    · rw [last] at here
      obtain rfl := Option.some.inj here
      exact List.findSome?_cons_of_isSome (by simp [found]) |>.trans found
    · have short : (rest.reverse ++ [first]).length ≤ number := by
        rw [List.length_append, List.length_reverse]
        exact outside
      rw [List.getElem?_eq_none short] at here
      cases here

end Scopes

/-- A state in which a level has a constant with a value. -/
def Machine.Fixes (m : Machine) (level : ServerScript.Level) (name : Name) (v : Value) : Prop :=
  m.scopes.constantAt? level name = some v

/-- A change that leaves as many frames and does not lose the constant. -/
structure Machine.KeepsFixed (level : ServerScript.Level) (name : Name) (v : Value)
    (m m' : Machine) : Prop where
  depth : m'.scopes.depth = m.scopes.depth
  fixes : m.Fixes level name v → m'.Fixes level name v

namespace Machine

variable {m m' m'' : Machine} {level : ServerScript.Level} {name : Name} {v : Value}

theorem KeepsFixed.refl (m : Machine) : m.KeepsFixed level name v m := ⟨rfl, id⟩

theorem KeepsFixed.trans (first : KeepsFixed level name v m m')
    (second : KeepsFixed level name v m' m'') : KeepsFixed level name v m m'' :=
  ⟨second.depth.trans first.depth, second.fixes ∘ first.fixes⟩

theorem keepsFixed_of_scopes (same : m'.scopes = m.scopes) : KeepsFixed level name v m m' := by
  refine ⟨congrArg Scopes.depth same, fun fixes => ?_⟩
  rwa [Fixes, same]

theorem keepsFixed_of_updates {scopes : Scopes} {heap : Heap}
    (depth : scopes.depth = m.scopes.depth) (updates : m.scopes.Updates scopes) :
    KeepsFixed level name v m { m with scopes, heap } := by
  refine ⟨depth, fun fixes => updates.constantAt? fixes ?_⟩
  exact Scopes.isSome_at?_of_constantAt? fixes (Nat.le_of_eq depth.symm)

theorem Fixes.enter (fixes : m.Fixes level name v) (decl : Procedure) (this : Option InstanceRef) :
    (Interpreter.enter decl this m).Fixes level name v := by
  refine (Scopes.updates_push m.scopes).constantAt? fixes ?_
  exact Scopes.isSome_at?_of_constantAt? fixes (Nat.le_succ _)

theorem keepsFixed_leave {decl : Procedure} {this : Option InstanceRef}
    (body : KeepsFixed level name v (Interpreter.enter decl this m) m') :
    KeepsFixed level name v m (Interpreter.leave (.ofMachine m) m') := by
  have depth : m'.scopes.pop.depth = m.scopes.depth := by
    have depth : m'.scopes.depth = m.scopes.depth + 1 := body.depth
    simp only [Scopes.depth, Scopes.pop, List.length_drop] at depth ⊢
    omega
  refine ⟨depth, fun fixes => ?_⟩
  exact (Scopes.updates_pop m'.scopes).constantAt? (body.fixes (fixes.enter decl this))
    (Scopes.isSome_at?_of_constantAt? fixes (Nat.le_of_eq depth.symm))

end Machine

section

variable (level : ServerScript.Level) (name : Name) (v : Value)

open Machine

def constantExprs : ExprDiscipline where
  Pre m := m.Fixes level name v
  Step m m' := m.KeepsFixed level name v m'
  refl _ := .refl _
  trans := .trans
  keeps pre step := step.fixes pre
  moves _ moved := keepsFixed_of_scopes moved.scopes
  assign _ done := keepsFixed_of_updates (restoresMode_assign done).depth
    (Scopes.updates_assign done)
  enterGetter pre _ := pre
  leaveGetter _ _ inner := ⟨inner.depth, inner.fixes⟩

def constantStmts : StmtDiscipline where
  toDiscipline := (constantExprs level name v).toDiscipline
  exprs := constantExprs level name v
  declares _ := True
  modes _ := True
  pre_iff := .rfl
  lift _ := id
  define _ _ done := keepsFixed_of_updates (restores_define done).depth (Scopes.updates_define done)
  constant _ done := keepsFixed_of_updates (restores_setConstant done).depth
    (Scopes.updates_setConstant done)
  extend _ _ done := keepsFixed_of_updates (restores_define done).depth (Scopes.updates_define done)
  errorMode _ _ := keepsFixed_of_scopes rfl
  compareMode _ := ⟨rfl, id⟩
  enterWith pre := pre
  leaveWith _ inner := ⟨inner.depth, inner.fixes⟩

def constantRegime : Regime :=
  .uniform (constantStmts level name v) (fun _ => trivial) (fun _ => trivial)
    (fun pre => pre.enter _ _) keepsFixed_leave

theorem fitsTask_constantRegime (chain : List Procedure) (task : Task) :
    (constantRegime level name v).fitsTask chain task := by
  cases task <;> trivial

end

theorem Stage.Passes.fixes {s : Stage} {m : Machine} {level : Level} {name : Name} {v : Value}
    (passes : s.Passes m) (fixes : s.state.Fixes level name v) : m.Fixes level name v := by
  let R := constantRegime level name v
  have fits := fitsTask_constantRegime level name v
  refine passes.induction (P := fun t => R.Pre t.chain t.state) fixes (fun pre leads => ?_) id
    fun {n chain task m} pre => ?_
  · exact (R.leads leads pre (fits _ _)).1
  · exact (R.step_run n chain pre (fits chain task)).fixes pre

namespace Machine

variable {m m₁ m₂ : Machine} {level : ServerScript.Level} {name : Name} {v : Value} {n : Nat}

end Machine

theorem Interpreter.exec_readName {ev : Interpreter} {m : Machine} {name : Name} {v : Value}
    (found : m.scopes.resolve m.heap name = .value v)
    (uncalled : ∀ id decl, v ≠ .callable id (.procedure decl)) :
    (readName ev name).exec m = (.ok v, m) := by
  have resolved : (Run.resolve name).exec m = (.ok (.value v), m) := by
    rw [← found]
    rfl
  rw [readName, Run.exec_bind_ok resolved]
  split
  · rename_i id decl same
    cases same
    exact absurd rfl (uncalled id decl)
  · rename_i same
    cases same
    rfl
  · cases ‹_ = _›
  · cases ‹_ = _›

namespace SharedConstant

open SelfAssignment (a start)

def k : Name := ⟨"k"⟩

/-- `a = Array(1, 2)`. -/
def building : Block :=
  [⟨.assign (.ident a) (.call (.ident ⟨"array"⟩) [.literal (.integer 1), .literal (.integer 2)])
    false, {}⟩]

def built : Machine := ((Script.runWithin 5 building).exec start).2

def declared : Machine := (((Interpreter.within 5).execConst [⟨k, .ident a⟩]).exec built).2

/-- `a(0) = 9`. -/
def writing : Block :=
  [⟨.assign (.call (.ident a) [.literal (.integer 0)]) (.literal (.integer 9)) false, {}⟩]

def written : Machine := (((Interpreter.within 5).block writing).exec declared).2

def first (m : Machine) : Except Stop Value :=
  (((Interpreter.within 5).expr (.call (.ident k) [.literal (.integer 0)])).exec m).1

end SharedConstant

end ServerScript
