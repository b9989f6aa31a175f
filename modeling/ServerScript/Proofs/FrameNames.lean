import Mathlib.Data.List.Forall2
import ServerScript.Proofs.Frames

/-! The names of live frames. Variables are created by declarations alone, in the frame of the
procedure that is running; an expression runs declarations only in the frames of its own calls,
which are gone when it ends. So it finds in every frame the variables that were there before, and
the same constants. A write to a name that no frame and no member of the current instance has goes
to the globals. -/
namespace ServerScript

/-- A frame with the same variables, whatever their values, and with the same constants. -/
structure Scope.SameNames (s s' : Scope) : Prop where
  locals : s'.locals.map (·.1) = s.locals.map (·.1)
  constants : s'.constants = s.constants

theorem Scope.SameNames.refl (s : Scope) : s.SameNames s := ⟨rfl, rfl⟩

theorem Scope.SameNames.trans {s s' s'' : Scope} (first : s.SameNames s')
    (second : s'.SameNames s'') : s.SameNames s'' :=
  ⟨second.locals.trans first.locals, second.constants.trans first.constants⟩

def SameFrames : List Scope → List Scope → Prop := List.Forall₂ Scope.SameNames

namespace SameFrames

variable {frames frames' frames'' : List Scope}

theorem refl (frames : List Scope) : SameFrames frames frames :=
  List.forall₂_same.mpr fun scope _ => .refl scope

theorem trans (first : SameFrames frames frames') (second : SameFrames frames' frames'') :
    SameFrames frames frames'' := by
  induction first generalizing frames'' with
  | nil => exact second
  | cons head _ ih =>
    cases second with
    | cons next rest => exact .cons (head.trans next) (ih rest)

theorem tail (same : SameFrames frames frames') : SameFrames frames.tail frames'.tail := by
  cases same with
  | nil => exact .nil
  | cons _ rest => exact rest

end SameFrames

theorem sameFrames_setInFrames (name : Name) (v : Value) (frames : List Scope) :
    SameFrames frames (Scopes.setInFrames name v frames) := by
  induction frames with
  | nil => exact .nil
  | cons scope rest ih =>
    rw [Scopes.setInFrames]
    split
    · rename_i known
      exact .cons ⟨map_fst_putName v known, rfl⟩ (SameFrames.refl rest)
    · exact .cons (.refl scope) ih

namespace Scopes

variable {s s' s'' : Scopes} {h h' : Heap} {name : Name} {v : Value}

def GlobalsGrow (s s' : Scopes) : Prop := ∀ x, (s.global? x).isSome → (s'.global? x).isSome

theorem globalsGrow_setGlobal (s : Scopes) (name : Name) (v : Value) :
    s.GlobalsGrow (s.setGlobal name v) := by
  intro x known
  rw [Scopes.global?, setGlobal, lookupName_putName]
  split
  · rfl
  · exact known

/-- What expressions leave of the names: those of every frame, all constants and all globals. -/
structure KeepsNames (s s' : Scopes) : Prop where
  frames : SameFrames s.frames s'.frames
  constants : s'.constants = s.constants
  globals : s.GlobalsGrow s'

/-- What statements leave of the names. They may add to the innermost frame, or to the globals and
their constants outside of procedures. -/
structure KeepsOuterNames (s s' : Scopes) : Prop where
  depth : s'.depth = s.depth
  outer : SameFrames s.frames.tail s'.frames.tail
  constants : s.frames ≠ [] → s'.constants = s.constants
  globals : s.GlobalsGrow s'

theorem KeepsNames.refl (s : Scopes) : s.KeepsNames s := ⟨.refl _, rfl, fun _ => id⟩

theorem KeepsNames.trans (first : s.KeepsNames s') (second : s'.KeepsNames s'') :
    s.KeepsNames s'' := by
  refine ⟨first.frames.trans second.frames, second.constants.trans first.constants,
    fun x known => ?_⟩
  exact second.globals x (first.globals x known)

theorem KeepsNames.depth (keeps : s.KeepsNames s') : s'.depth = s.depth :=
  keeps.frames.length_eq.symm

theorem KeepsNames.outer (keeps : s.KeepsNames s') : s.KeepsOuterNames s' :=
  ⟨keeps.depth, keeps.frames.tail, fun _ => keeps.constants, keeps.globals⟩

theorem KeepsOuterNames.trans (first : s.KeepsOuterNames s') (second : s'.KeepsOuterNames s'') :
    s.KeepsOuterNames s'' := by
  refine ⟨second.depth.trans first.depth, first.outer.trans second.outer, fun inside => ?_,
    fun x known => second.globals x (first.globals x known)⟩
  have still : s'.frames ≠ [] := by
    have depth : s'.frames.length = s.frames.length := first.depth
    rw [← List.length_pos_iff] at inside ⊢
    omega
  exact (second.constants still).trans (first.constants inside)

theorem keepsNames_assign {r : Assigned} (done : s.assign h name v = .ok (s', h', r)) :
    s.KeepsNames s' := by
  obtain ⟨rfl, -, -⟩ | ⟨-, rfl, -, -⟩ | ⟨-, rfl, -, -⟩ | ⟨-, -, rfl, -, -⟩ := assign_cases done
  · exact ⟨sameFrames_setInFrames name v s.frames, rfl, fun _ => id⟩
  · exact ⟨.refl _, rfl, s.globalsGrow_setGlobal name v⟩
  · exact .refl _
  · exact .refl _

theorem keepsOuterNames_define (done : s.define name v = .ok s') : s.KeepsOuterNames s' := by
  obtain ⟨scope, rest, first, rfl⟩ | ⟨empty, rfl⟩ := define_cases done
  · exact ⟨by simp [depth, first], by simpa [first] using SameFrames.refl rest, fun _ => rfl,
      fun _ => id⟩
  · exact ⟨rfl, .refl _, fun inside => absurd empty inside, s.globalsGrow_setGlobal name v⟩

theorem keepsOuterNames_setConstant (done : s.setConstant name v = .ok s') :
    s.KeepsOuterNames s' := by
  obtain ⟨scope, rest, first, rfl⟩ | ⟨empty, rfl⟩ := setConstant_cases done
  · exact ⟨by simp [depth, first], by simpa [first] using SameFrames.refl rest, fun _ => rfl,
      fun _ => id⟩
  · exact ⟨rfl, .refl _, fun inside => absurd empty inside, fun _ => id⟩

end Scopes

def nameExprs : ExprDiscipline where
  Pre _ := True
  Step m m' := m.scopes.KeepsNames m'.scopes
  refl _ := .refl _
  trans := .trans
  keeps _ _ := trivial
  moves _ moved := moved.scopes ▸ .refl _
  assign _ done := Scopes.keepsNames_assign done
  enterGetter _ _ := trivial
  leaveGetter _ _ inner := inner

def nameStmts : StmtDiscipline where
  Pre _ := True
  Step m m' := m.scopes.KeepsOuterNames m'.scopes
  refl _ := (Scopes.KeepsNames.refl _).outer
  trans := .trans
  keeps _ _ := trivial
  moves _ moved := moved.scopes ▸ (Scopes.KeepsNames.refl _).outer
  exprs := nameExprs
  declares _ := True
  modes _ := True
  pre_iff := .rfl
  lift _ step := step.outer
  define _ _ done := Scopes.keepsOuterNames_define done
  constant _ done := Scopes.keepsOuterNames_setConstant done
  extend _ _ done := Scopes.keepsOuterNames_define done
  errorMode _ _ := (Scopes.KeepsNames.refl _).outer
  compareMode _ := ⟨rfl, .refl _, fun _ => rfl, fun _ => id⟩
  enterWith _ := trivial
  leaveWith _ inner := inner

/-- The regime under which expressions keep the names of all frames. What a call adds to its own
frame goes with the frame. -/
def nameRegime : Regime where
  stmts _ := nameStmts
  fits _ _ := True
  rest _ := trivial
  inner _ _ _ := trivial
  declared _ _ _ := trivial
  modes _ _ _ := trivial
  body _ _ := trivial
  params _ _ _ _ := trivial
  result _ _ _ := trivial
  scalars _ _ _ _ := trivial
  enter _ _ := trivial
  leave _ body := by
    refine ⟨?_, body.constants (List.cons_ne_nil _ _), body.globals⟩
    rw [Interpreter.leave, Scopes.pop, List.drop_one]
    exact body.outer

namespace Interpreter

theorem keepsNames_expr (n : Nat) (m : Machine) (e : Expr) :
    m.scopes.KeepsNames (((within n).expr e).exec m).2.scopes := by
  have sound := nameRegime.sound_within n []
  exact (sound.expr e m trivial).step

theorem keepsNames_callProcedure (n : Nat) (m : Machine) (decl : Procedure)
    (this : Option InstanceRef) (args : Arguments) :
    m.scopes.KeepsNames ((callProcedure (within n) decl this args).exec m).2.scopes := by
  have call : (nameRegime.expr []).holds Policy.any.value fun _ =>
      callProcedure (within n) decl this args :=
    (nameRegime.expr []).holds_callProcedure (nameRegime.sound_within n []).invoke trivial
      (fun _ _ => trivial) fun _ _ => Policy.any_value _
  exact (call m trivial).step

end Interpreter

/-- No frame has a variable or a constant of the name. -/
def Scopes.AbsentFromFrames (s : Scopes) (x : Name) : Prop :=
  ∀ scope ∈ s.frames, lookupName x scope.locals = none ∧ lookupName x scope.constants = none

namespace Scopes

variable {s : Scopes} {h : Heap} {x : Name}

theorem AbsentFromFrames.constant? (absent : s.AbsentFromFrames x) :
    s.constant? x = lookupName x s.constants := by
  have none : (s.frames.findSome? fun scope => lookupName x scope.constants) = none :=
    List.findSome?_eq_none_iff.mpr fun scope member => (absent scope member).2
  rw [Scopes.constant?, none]

theorem AbsentFromFrames.frameVariable? (absent : s.AbsentFromFrames x) :
    s.frameVariable? x = none := by
  apply List.findSome?_eq_none_iff.mpr
  intro scope member
  exact (absent scope member).1

theorem not_hasWriter_of_member? {i : InstanceRef} (isMe : s.me = some i)
    (missing : s.member? h x = none) :
    h.field? i.cell x = none ∧ i.cls.hasWriter x = false := by
  rw [member?, isMe] at missing
  dsimp only at missing
  split at missing
  · cases missing
  · rename_i noField
    refine ⟨noField, ?_⟩
    have noProcedure : i.cls.hasProcedure x = false := by
      by_contra has
      simp [has] at missing
    rw [ClassDef.hasProcedure, Bool.or_eq_false_iff, Option.isSome_eq_false_iff,
      Option.isSome_eq_false_iff, Option.isNone_iff_eq_none, Option.isNone_iff_eq_none]
      at noProcedure
    simp [ClassDef.hasWriter, noProcedure.2]

theorem assign_of_absent (absent : s.AbsentFromFrames x) (missing : s.member? h x = none)
    (v : Value) :
    s.assign h x v =
      if (lookupName x s.constants).isSome then .error (.assignToConstant x.text)
      else .ok (s.setGlobal x v, h, .done) := by
  rw [assign, isConstant, absent.constant?, absent.frameVariable?]
  split
  · rfl
  · cases isMe : s.me with
    | none => simp
    | some i =>
      obtain ⟨noField, noWriter⟩ := not_hasWriter_of_member? isMe missing
      simp [noField, noWriter]

end Scopes

namespace Interpreter

variable {m : Machine} {x : Name}

theorem exec_assignName_of_absent (ev : Interpreter) (absent : m.scopes.AbsentFromFrames x)
    (missing : m.scopes.member? m.heap x = none) (v : Value) (set : Bool) :
    (ev.assignName x v set).exec m =
      if (lookupName x m.scopes.constants).isSome then
        (.error (.error (.assignToConstant x.text)), m)
      else (.ok (), { m with scopes := m.scopes.setGlobal x v }) := by
  rw [assignName, Run.exec_bind, Run.assignWith, Run.exec_get_bind,
    Scopes.assign_of_absent absent missing v]
  by_cases constant : (lookupName x m.scopes.constants).isSome
  · rw [if_pos constant, if_pos constant]
    rfl
  · rw [if_neg constant, if_neg constant]
    rfl

theorem exec_writeBack_of_absent (ev : Interpreter) (absent : m.scopes.AbsentFromFrames x)
    (missing : m.scopes.member? m.heap x = none) (v : Value) :
    (ev.writeBack x v).exec m =
      (.ok (), if (lookupName x m.scopes.constants).isSome then m
        else { m with scopes := m.scopes.setGlobal x v }) := by
  rw [Interpreter.writeBack, Run.exec_bind, Run.assignWith, Run.exec_get_bind, Scopes.writeBack,
    Scopes.isConstant, absent.constant?, Scopes.assign_of_absent absent missing v]
  by_cases constant : (lookupName x m.scopes.constants).isSome
  · rw [if_pos constant, if_pos constant]
    rfl
  · rw [if_neg constant, if_neg constant, if_neg constant]
    rfl

end Interpreter

/-- Expressions keep the names of live frames. From whatever state and with any end, an expression
or a call leaves in every frame the same variables and the same constants, leaves the constants
outside of procedures alone, and removes no global. An assignment or a write-back to a name that
neither a frame nor the current instance has changes the globals and nothing else; a constant of
that name stays as it is. -/
theorem expression_keeps_names :
    (∀ (n : Nat) (m : Machine),
      (∀ e, m.scopes.KeepsNames (((Interpreter.within n).expr e).exec m).2.scopes) ∧
      ∀ decl this args, m.scopes.KeepsNames
        (((Interpreter.within n).callProcedure decl this args).exec m).2.scopes) ∧
    ∀ (ev : Interpreter) (m : Machine) (x : Name) (v : Value), m.scopes.AbsentFromFrames x →
      m.scopes.member? m.heap x = none →
      (∀ set, (ev.assignName x v set).exec m =
        if (lookupName x m.scopes.constants).isSome then
          (.error (.error (.assignToConstant x.text)), m)
        else (.ok (), { m with scopes := m.scopes.setGlobal x v })) ∧
      (ev.writeBack x v).exec m =
        (.ok (), if (lookupName x m.scopes.constants).isSome then m
          else { m with scopes := m.scopes.setGlobal x v }) := by
  refine ⟨fun n m => ?_, fun ev m x v absent missing => ?_⟩
  · exact ⟨Interpreter.keepsNames_expr n m, Interpreter.keepsNames_callProcedure n m⟩
  · exact ⟨ev.exec_assignName_of_absent absent missing v,
      ev.exec_writeBack_of_absent absent missing v⟩

/-- Two running procedures, neither of which has a variable `made`. -/
def Machine.twoFrames : Machine :=
  { scopes := {
      frames := [{ locals := [(⟨"inner"⟩, .empty)] }, { locals := [(⟨"outer"⟩, .empty)] }] }
    callDepth := 2 }

theorem write_back_past_two_frames :
    Machine.twoFrames.scopes.AbsentFromFrames ⟨"made"⟩ ∧
      (Script.interpreter.writeBack ⟨"made"⟩ (.integer 7)).exec .twoFrames =
        (.ok (), { Machine.twoFrames with
          scopes := Machine.twoFrames.scopes.setGlobal ⟨"made"⟩ (.integer 7) }) := by
  have absent : Machine.twoFrames.scopes.AbsentFromFrames ⟨"made"⟩ := by
    intro scope member
    simp only [Machine.twoFrames, List.mem_cons, List.not_mem_nil, or_false] at member
    rcases member with rfl | rfl <;> exact ⟨rfl, rfl⟩
  exact ⟨absent, (expression_keeps_names.2 _ _ _ _ absent rfl).2⟩

end ServerScript
