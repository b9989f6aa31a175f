import ServerScript.Proofs.FrameNames

/-! Where a variable lives. A name that a write reaches without an accessor denotes a slot: in a
frame, in an instance, or among the globals. A write changes this slot and no other one, and it
does not change which slots the names denote. -/
namespace ServerScript

/-- The place of a variable. Frames are counted from the innermost one. -/
inductive Slot where
  | frame (index : Nat)
  | field (cell : Nat)
  | global
  deriving DecidableEq, Repr

def Scope.hasLocal (name : Name) (scope : Scope) : Bool := (lookupName name scope.locals).isSome

def Scope.setLocal (name : Name) (v : Value) (scope : Scope) : Scope :=
  { scope with locals := putName name v scope.locals }

namespace Machine

/-- The slot of the variable that a name stands for. Constants have none, and neither has a
procedure or a property of the current instance. -/
def slot? (m : Machine) (name : Name) : Option Slot :=
  if m.scopes.isConstant name then none
  else
    match m.scopes.frames.findIdx? (Scope.hasLocal name) with
    | some index => some (.frame index)
    | none =>
      match m.scopes.me with
      | none => some .global
      | some i =>
        if (m.heap.field? i.cell name).isSome then some (.field i.cell)
        else if i.cls.hasProcedure name then none
        else some .global

/-- The value in a slot. -/
def stored (m : Machine) (name : Name) : Slot → Option Value
  | .frame index => m.scopes.frames[index]?.bind fun scope => lookupName name scope.locals
  | .field cell => m.heap.field? cell name
  | .global => m.scopes.global? name

def put (m : Machine) (name : Name) (v : Value) : Slot → Machine
  | .frame index =>
    { m with scopes := { m.scopes with frames := m.scopes.frames.modify index (.setLocal name v) } }
  | .field cell => { m with heap := m.heap.setField cell name v }
  | .global => { m with scopes := m.scopes.setGlobal name v }

end Machine

def Value.isWord (n : Int64) : Value → Bool
  | .integer w => w == n
  | _ => false

theorem Value.eq_of_isWord {v : Value} {n : Int64} (same : v.isWord n = true) :
    v = .integer n := by
  cases v with
  | integer w => rw [beq_iff_eq.mp same]
  | _ => cases same

theorem Value.eq_some_of_isWord {v : Option Value} {n : Int64}
    (same : v.any (isWord n) = true) : v = some (.integer n) := by
  cases v with
  | some v => rw [eq_of_isWord same]
  | none => cases same

namespace Scopes

variable {s : Scopes} {name : Name} {v : Value}

theorem frameVariable?_isSome_iff :
    (s.frameVariable? name).isSome ↔ (s.frames.findIdx? (Scope.hasLocal name)).isSome := by
  rw [frameVariable?, List.findSome?_isSome_iff, List.findIdx?_isSome, List.any_eq_true]
  rfl

theorem setInFrames_eq_modify {frames : List Scope} {index : Nat}
    (found : frames.findIdx? (Scope.hasLocal name) = some index) :
    setInFrames name v frames = frames.modify index (.setLocal name v) := by
  induction frames generalizing index with
  | nil => cases found
  | cons scope rest ih =>
    rw [List.findIdx?_cons] at found
    rw [setInFrames]
    split at found
    · next has =>
      cases found
      exact if_pos has
    · next lacks =>
      obtain ⟨deeper, inside, rfl⟩ := Option.map_eq_some_iff.mp found
      have lacks : ¬(lookupName name scope.locals).isSome := lacks
      rw [if_neg lacks, ih inside]
      rfl

end Scopes

namespace Machine

variable {m : Machine} {name other : Name} {v : Value} {slot : Slot}

theorem slot?_cases (denotes : m.slot? name = some slot) :
    m.scopes.constant? name = none ∧
    ((∃ index, m.scopes.frames.findIdx? (Scope.hasLocal name) = some index ∧
      slot = .frame index) ∨
    m.scopes.frameVariable? name = none ∧
    ((∃ i, m.scopes.me = some i ∧ (m.heap.field? i.cell name).isSome ∧ slot = .field i.cell) ∨
      m.scopes.member? m.heap name = none ∧ slot = .global)) := by
  rw [slot?] at denotes
  split at denotes
  · cases denotes
  rename_i constant
  refine ⟨Option.not_isSome_iff_eq_none.mp constant, ?_⟩
  split at denotes
  · rename_i index found
    exact .inl ⟨index, found, (Option.some.inj denotes).symm⟩
  rename_i missing
  have free : m.scopes.frameVariable? name = none := by
    rw [← Option.not_isSome_iff_eq_none, Scopes.frameVariable?_isSome_iff, missing]
    exact Bool.false_ne_true
  refine .inr ⟨free, ?_⟩
  split at denotes
  · rename_i nobody
    exact .inr ⟨by rw [Scopes.member?, nobody], (Option.some.inj denotes).symm⟩
  rename_i i isMe
  split at denotes
  · rename_i field
    exact .inl ⟨i, isMe, field, (Option.some.inj denotes).symm⟩
  rename_i noField
  split at denotes
  · cases denotes
  rename_i noProcedure
  refine .inr ⟨?_, (Option.some.inj denotes).symm⟩
  rw [Scopes.member?, isMe]
  dsimp only
  rw [Option.not_isSome_iff_eq_none.mp noField, if_neg noProcedure]

theorem stored_frame {index : Nat}
    (found : m.scopes.frames.findIdx? (Scope.hasLocal name) = some index) :
    m.stored name (.frame index) = m.scopes.frameVariable? name := by
  rw [stored, Scopes.frameVariable?]
  generalize m.scopes.frames = frames at found
  induction frames generalizing index with
  | nil => cases found
  | cons scope rest ih =>
    rw [List.findIdx?_cons] at found
    rw [List.findSome?_cons]
    split at found
    · next has =>
      cases found
      obtain ⟨v, here⟩ := Option.isSome_iff_exists.mp has
      rw [here]
      exact here
    · next lacks =>
      obtain ⟨deeper, inside, rfl⟩ := Option.map_eq_some_iff.mp found
      have lacks : lookupName name scope.locals = none := Option.not_isSome_iff_eq_none.mp lacks
      rw [lacks]
      exact ih inside

theorem resolve_eq_stored (denotes : m.slot? name = some slot) :
    m.scopes.resolve m.heap name = (m.stored name slot).elim .missing .value := by
  obtain ⟨constant, ⟨index, found, rfl⟩ | ⟨free, ⟨i, isMe, field, rfl⟩ | ⟨member, rfl⟩⟩⟩ :=
    slot?_cases denotes
  · have known := Scopes.frameVariable?_isSome_iff.mpr (Option.isSome_of_eq_some found)
    obtain ⟨v, known⟩ := Option.isSome_iff_exists.mp known
    rw [stored_frame found, Scopes.resolve, constant, known]
    rfl
  · obtain ⟨v, field⟩ := Option.isSome_iff_exists.mp field
    rw [stored, field, Scopes.resolve, constant, free, Scopes.member?, isMe]
    dsimp only
    rw [field]
    rfl
  · rw [stored, Scopes.resolve, constant, free, member]
    dsimp only
    cases m.scopes.global? name <;> rfl

theorem lookup_eq_stored (denotes : m.slot? name = some slot) :
    m.scopes.lookup m.heap name = m.stored name slot := by
  rw [Scopes.lookup, resolve_eq_stored denotes]
  cases m.stored name slot <;> rfl

theorem assign_eq_put (denotes : m.slot? name = some slot) (v : Value) :
    m.scopes.assign m.heap name v =
      .ok ((m.put name v slot).scopes, (m.put name v slot).heap, .done) := by
  obtain ⟨constant, ⟨index, found, rfl⟩ | ⟨free, ⟨i, isMe, field, rfl⟩ | ⟨member, rfl⟩⟩⟩ :=
    slot?_cases denotes
  · have known := Scopes.frameVariable?_isSome_iff.mpr (Option.isSome_of_eq_some found)
    rw [Scopes.assign, Scopes.isConstant, constant, Option.isSome_none, if_neg Bool.false_ne_true,
      if_pos known, Scopes.setInFrames_eq_modify found]
    rfl
  · rw [Scopes.assign, Scopes.isConstant, constant, free, Option.isSome_none,
      if_neg Bool.false_ne_true, if_neg Bool.false_ne_true, isMe]
    dsimp only
    rw [if_pos field]
    rfl
  · rw [Scopes.assign, Scopes.isConstant, constant, free, Option.isSome_none,
      if_neg Bool.false_ne_true, if_neg Bool.false_ne_true]
    cases isMe : m.scopes.me with
    | none => rfl
    | some i =>
      obtain ⟨noField, noWriter⟩ := Scopes.not_hasWriter_of_member? isMe member
      dsimp only
      rw [noField, Option.isSome_none, if_neg Bool.false_ne_true, noWriter,
        if_neg Bool.false_ne_true]
      rfl

theorem exec_assignWith_eq_put {write : Scopes → Heap → Except EvalError (Scopes × Heap × Assigned)}
    (written : write m.scopes m.heap =
      .ok ((m.put name v slot).scopes, (m.put name v slot).heap, .done)) :
    (Run.assignWith write).exec m = (.ok .done, m.put name v slot) := by
  rw [Run.assignWith, Run.exec_get_bind, written]
  cases slot <;> rfl

end Machine

namespace Interpreter

variable {m : Machine} {name : Name} {slot : Slot}

theorem exec_assignName (ev : Interpreter) (denotes : m.slot? name = some slot) (v : Value)
    (set : Bool) : (ev.assignName name v set).exec m = (.ok ⟨⟩, m.put name v slot) := by
  rw [assignName, Run.exec_bind_ok (Machine.exec_assignWith_eq_put (m.assign_eq_put denotes v))]
  rfl

end Interpreter

/-- What expressions leave of the variables: they have the slots that they had. -/
structure Machine.KeepsVariables (m m' : Machine) : Prop where
  names : m.scopes.KeepsNames m'.scopes
  me : m'.scopes.me = m.scopes.me
  fields : m.heap.KeepsFields m'.heap

/-- What statements leave of the variables. They may add to the innermost frame. -/
structure Machine.KeepsOuterVariables (m m' : Machine) : Prop where
  names : m.scopes.KeepsOuterNames m'.scopes
  me : m'.scopes.me = m.scopes.me
  fields : m.heap.KeepsFields m'.heap

namespace Machine

variable {m m' m'' : Machine} {name other : Name} {v : Value} {slot slot' : Slot}

theorem KeepsVariables.refl (m : Machine) : m.KeepsVariables m := ⟨.refl _, rfl, .refl _⟩

theorem KeepsVariables.trans (first : m.KeepsVariables m') (second : m'.KeepsVariables m'') :
    m.KeepsVariables m'' :=
  ⟨first.names.trans second.names, second.me.trans first.me, first.fields.trans second.fields⟩

theorem KeepsVariables.outer (keeps : m.KeepsVariables m') : m.KeepsOuterVariables m' :=
  ⟨keeps.names.outer, keeps.me, keeps.fields⟩

theorem KeepsOuterVariables.refl (m : Machine) : m.KeepsOuterVariables m :=
  (KeepsVariables.refl m).outer

theorem KeepsOuterVariables.trans (first : m.KeepsOuterVariables m')
    (second : m'.KeepsOuterVariables m'') : m.KeepsOuterVariables m'' :=
  ⟨first.names.trans second.names, second.me.trans first.me, first.fields.trans second.fields⟩

theorem Moves.keepsVariables (moved : m.Moves .any m') : m.KeepsVariables m' := by
  refine ⟨?_, congrArg Scopes.me moved.scopes, moved.heap.fields⟩
  rw [moved.scopes]
  exact .refl _

theorem keepsVariables_assign {scopes : Scopes} {heap : Heap} {r : Assigned}
    (done : m.scopes.assign m.heap name v = .ok (scopes, heap, r)) :
    m.KeepsVariables { m with scopes, heap } := by
  refine ⟨Scopes.keepsNames_assign done, (restoresMode_assign done).me, ?_⟩
  obtain ⟨-, rfl, -⟩ | ⟨-, -, rfl, -⟩ | ⟨i, -, rfl, -⟩ | ⟨-, -, -, rfl, -⟩ :=
    Scopes.assign_cases done
  · exact .refl _
  · exact .refl _
  · exact (Heap.advances_setField m.heap i.cell name (Policy.any_value v)).fields
  · exact .refl _

theorem keepsFields_enterGetter (m : Machine) (cell : Nat) (name : Name) :
    m.heap.KeepsFields (m.enterGetter cell name).heap := by
  rw [enterGetter, Interpreter.enterGetter]
  split
  · exact .refl _
  · dsimp only
    split
    · exact .refl _
    · exact Heap.keepsFields_modifyInstance fun _ _ => rfl

theorem keepsFields_leaveGetter (m : Machine) (cell : Nat) (name : Name) :
    m.heap.KeepsFields (m.leaveGetter cell name).heap :=
  Heap.keepsFields_modifyInstance fun _ _ => rfl

end Machine

def variableExprs : ExprDiscipline where
  Pre _ := True
  Step m m' := m.KeepsVariables m'
  refl _ := .refl _
  trans := .trans
  keeps _ _ := trivial
  moves _ moved := moved.keepsVariables
  assign _ done := Machine.keepsVariables_assign done
  enterGetter _ _ := trivial
  leaveGetter _ _ inner := ⟨inner.names, inner.me, (Machine.keepsFields_enterGetter _ _ _).trans
    (inner.fields.trans (Machine.keepsFields_leaveGetter _ _ _))⟩

def variableStmts : StmtDiscipline where
  Pre _ := True
  Step m m' := m.KeepsOuterVariables m'
  refl _ := .refl _
  trans := .trans
  keeps _ _ := trivial
  moves _ moved := moved.keepsVariables.outer
  exprs := variableExprs
  declares _ := True
  modes _ := True
  pre_iff := .rfl
  lift _ step := step.outer
  define _ _ done :=
    ⟨Scopes.keepsOuterNames_define done, (Machine.restores_define done).me, .refl _⟩
  constant _ done :=
    ⟨Scopes.keepsOuterNames_setConstant done, (Machine.restores_setConstant done).me, .refl _⟩
  extend _ _ done :=
    ⟨Scopes.keepsOuterNames_define done, (Machine.restores_define done).me, .refl _⟩
  errorMode _ _ := ⟨(Scopes.KeepsNames.refl _).outer, rfl, .refl _⟩
  compareMode _ := ⟨⟨rfl, .refl _, fun _ => rfl, fun _ => id⟩, rfl, .refl _⟩
  enterWith _ := trivial
  leaveWith _ inner := ⟨inner.names, inner.me, inner.fields⟩

def variableRegime : Regime where
  stmts _ := variableStmts
  fits _ _ := True
  rest _ := trivial
  inner _ _ _ := trivial
  declared _ _ _ := trivial
  modes _ _ _ := trivial
  body _ _ := trivial
  params _ _ _ _ := trivial
  result _ _ _ := trivial
  scalars _ _ _ _ := trivial
  enter _ _ := trivial
  leave _ body := ⟨@Regime.leave nameRegime [] _ _ _ _ trivial body.names, rfl, body.fields⟩

/-- The current instance is one that exists. References come from the creation of instances, which
are never dropped, so this could fail only if a function of the embedding program made one up. -/
def Machine.MeExists (m : Machine) : Prop :=
  ∀ i, m.scopes.me = some i → (m.heap.instance? i.cell).isSome

theorem isSome_lookupName (name : Name) (entries : List (Name × α)) :
    (lookupName name entries).isSome = (entries.map (·.1)).any (· == name) := by
  rw [Bool.eq_iff_iff, lookupName, Option.isSome_map, List.find?_isSome, List.any_map,
    List.any_eq_true]
  rfl

theorem isSome_lookupName_of_names {entries : List (Name × α)} {entries' : List (Name × β)}
    (name : Name) (same : entries'.map (·.1) = entries.map (·.1)) :
    (lookupName name entries').isSome = (lookupName name entries).isSome := by
  rw [isSome_lookupName, isSome_lookupName, same]

namespace SameFrames

variable {frames frames' : List Scope} {name : Name}

theorem findIdx?_hasLocal (same : SameFrames frames frames') :
    frames'.findIdx? (Scope.hasLocal name) = frames.findIdx? (Scope.hasLocal name) := by
  induction same with
  | nil => rfl
  | cons first _ ih =>
    rw [List.findIdx?_cons, List.findIdx?_cons, ih, Scope.hasLocal, Scope.hasLocal,
      isSome_lookupName_of_names name first.locals]

theorem findSome?_constants (same : SameFrames frames frames') :
    (frames'.findSome? fun scope => lookupName name scope.constants) =
      frames.findSome? fun scope => lookupName name scope.constants := by
  induction same with
  | nil => rfl
  | cons first _ ih => rw [List.findSome?_cons, List.findSome?_cons, ih, first.constants]

end SameFrames

theorem Scopes.KeepsNames.constant? {s s' : Scopes} (keeps : s.KeepsNames s') (name : Name) :
    s'.constant? name = s.constant? name := by
  rw [Scopes.constant?, Scopes.constant?, keeps.frames.findSome?_constants, keeps.constants]

namespace Machine

variable {m m' : Machine} {name other : Name} {v : Value} {slot slot' : Slot}

/-- The slots depend on the names of variables only. -/
theorem slot?_congr (names : m.scopes.KeepsNames m'.scopes) (me : m'.scopes.me = m.scopes.me)
    (fields : ∀ i, m.scopes.me = some i →
      (m'.heap.field? i.cell name).isSome = (m.heap.field? i.cell name).isSome) :
    m'.slot? name = m.slot? name := by
  rw [slot?, slot?, Scopes.isConstant, Scopes.isConstant, names.constant?,
    names.frames.findIdx?_hasLocal, me]
  cases isMe : m.scopes.me with
  | none => rfl
  | some i =>
    dsimp only
    rw [fields i isMe]

theorem KeepsVariables.slot? (keeps : m.KeepsVariables m') (me : m.MeExists) (name : Name) :
    m'.slot? name = m.slot? name := by
  refine slot?_congr keeps.names keeps.me fun i isMe => ?_
  obtain ⟨c, found⟩ := Option.isSome_iff_exists.mp (me i isMe)
  obtain ⟨c', found', same⟩ := keeps.fields i.cell c found
  rw [Heap.field?, Heap.field?, found, found']
  exact isSome_lookupName_of_names name same

theorem keepsVariables_put (denotes : m.slot? name = some slot) (v : Value) :
    m.KeepsVariables (m.put name v slot) := by
  have keeps := keepsVariables_assign (m.assign_eq_put denotes v)
  exact ⟨keeps.names, keeps.me, keeps.fields⟩

theorem slot?_put (denotes : m.slot? name = some slot) (v : Value) (other : Name) :
    (m.put name v slot).slot? other = m.slot? other := by
  have keeps := m.keepsVariables_put denotes v
  refine slot?_congr keeps.names keeps.me fun i _ => ?_
  cases slot with
  | field cell =>
    refine (congrArg Option.isSome (Heap.field?_setField ..)).trans ?_
    split
    · next same =>
      obtain ⟨rfl, rfl, known⟩ := same
      exact known.symm
    · rfl
  | _ => rfl

theorem stored_put (denotes : m.slot? name = some slot) (v : Value) :
    (m.put name v slot).stored name slot = some v := by
  obtain ⟨-, ⟨index, found, rfl⟩ | ⟨-, ⟨i, -, field, rfl⟩ | ⟨-, rfl⟩⟩⟩ := slot?_cases denotes
  · obtain ⟨bound, -⟩ := List.findIdx?_eq_some_iff_getElem.mp found
    simp [stored, put, Scope.setLocal, List.getElem?_eq_getElem bound, lookupName_putName]
  · exact (Heap.field?_setField ..).trans (if_pos ⟨rfl, rfl, field⟩)
  · exact (lookupName_putName ..).trans (if_pos rfl)

end Machine

end ServerScript
