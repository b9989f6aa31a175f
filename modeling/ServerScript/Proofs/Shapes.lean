import ServerScript.Proofs.AcyclicArrays
import ServerScript.Proofs.Classes
import ServerScript.Proofs.Criteria
import ServerScript.Proofs.Slots

/-! The storage of instances. A store shapes a cell like a class if the cell has exactly the fields
that the class declares, and a state is shaped if every instance that it refers to is stored like
that. New instances are, and no instance loses a field or gets another one, so that a reference
stays good while the store grows: the shaped states are a realm that the rules keep up. -/
namespace ServerScript

/-- The cell has exactly the fields that a class declares, and they share no name with its other
members. -/
structure Heap.Shapes (h : Heap) (cell : Nat) (cls : ClassDef) : Prop where
  stored : ∃ content, h.instance? cell = some content ∧
    content.fields.map (·.1) = cls.fields.map (·.1)
  coherent : cls.Coherent

/-- A function that makes up no instance and no class: one that it answers with was among its
arguments. -/
def Native.Faithful (f : Native) : Prop :=
  ∀ args v, f.run args = .ok v →
    v ∈ args ∨ v.CodeSatisfies (fun _ => True) (fun _ _ => False) fun _ => False

/-- References lead to cells that are shaped like the class. -/
def Policy.shaped (h : Heap) : Policy where
  procedure _ := True
  cls := ClassDef.Coherent
  native := Native.Faithful
  exhausts := True
  inst := h.Shapes
  allowed shapes := shapes.coherent
  member _ _ := trivial
  answer {_ _ v} faithful values done := by
    refine (faithful _ v done).elim (values v) fun made => ?_
    cases v with
    | inst => exact made.elim
    | callable id target =>
      cases target with
      | procedure decl => trivial
      | cls c => exact made.elim
    | _ => trivial
  steady _ _ := trivial

/-- A value that leads to an instance of its class, if to any. -/
def Value.Shaped (h : Heap) : Value → Prop := (Policy.shaped h).value

/-- Every instance that the state refers to has exactly the fields of its class. -/
def Machine.Shaped (m : Machine) : Prop := m.Carries (.shaped m.heap)

variable {h h' : Heap} {m m' : Machine}

theorem Heap.Shapes.mono {cell : Nat} {cls : ClassDef} (shapes : h.Shapes cell cls)
    (keeps : h.KeepsFields h') : h'.Shapes cell cls := by
  obtain ⟨content, found, names⟩ := shapes.stored
  obtain ⟨content', found', same⟩ := keeps cell content found
  exact ⟨⟨content', found', same.trans names⟩, shapes.coherent⟩

theorem Heap.shapes_allocInstance {fields : Frame} {cls : ClassDef} (coherent : cls.Coherent)
    (names : fields.map (·.1) = cls.fields.map (·.1)) :
    (h.allocInstance { fields }).1.Shapes (h.allocInstance { fields }).2 cls :=
  ⟨⟨{ fields }, by simp [Heap.instance?, Heap.allocInstance], names⟩, coherent⟩

theorem Heap.Shapes.isSome_field? {cell : Nat} {cls : ClassDef} (shapes : h.Shapes cell cls)
    (name : Name) : (h.field? cell name).isSome = (cls.field? name).isSome := by
  obtain ⟨content, found, names⟩ := shapes.stored
  rw [Heap.field?, found, ClassDef.field?]
  exact isSome_lookupName_of_names name names

namespace Value.Shaped

theorem mono {v : Value} (shaped : v.Shaped h) (keeps : h.KeepsFields h') : v.Shaped h' := by
  cases v with
  | inst cell cls => exact Heap.Shapes.mono shaped keeps
  | callable id target =>
    cases target with
    | procedure decl => trivial
    | cls c => exact shaped
  | _ => trivial

theorem monos {values : List Value} (shaped : ∀ v ∈ values, v.Shaped h)
    (keeps : h.KeepsFields h') : ∀ v ∈ values, v.Shaped h' :=
  fun v member => (shaped v member).mono keeps

end Value.Shaped

theorem Machine.Carries.imp {p p' : Policy} (carries : m.Carries p)
    (values : ∀ v, p.value v → p'.value v) (instances : ∀ cell c, p.inst cell c → p'.inst cell c)
    (procedures : ∀ decl, p.procedure decl → p'.procedure decl)
    (natives : ∀ f, p.native f → p'.native f) : m.Carries p' where
  scopes := .ofAll (carries.scopes.all.imp values) fun i isMe =>
    instances _ _ (carries.scopes.me i isMe)
  heap :=
    ⟨fun cell a found v member => values v (carries.heap.arrays cell a found v member),
      fun cell c found e member => values _ (carries.heap.instances cell c found e member),
      fun cell d found e member =>
        (carries.heap.dictionaries cell d found e member).imp (values _) (values _)⟩
  withStack v member := values v (carries.withStack v member)
  procedure decl running := procedures decl (carries.procedure decl running)
  natives f member := natives f (carries.natives f member)

theorem Machine.carries_shaped_mono (carries : m.Carries (.shaped h)) (keeps : h.KeepsFields h') :
    m.Carries (.shaped h') :=
  carries.imp (fun _ shaped => Value.Shaped.mono shaped keeps) (fun _ _ shapes => shapes.mono keeps)
    (fun _ => id) fun _ => id

theorem Machine.Shaped.ofCarries (carries : m'.Carries (.shaped m.heap))
    (keeps : m.heap.KeepsFields m'.heap) : m'.Shaped := carries_shaped_mono carries keeps

theorem Machine.Shaped.level (shaped : m.Shaped) :
    m.Level (.shaped m.heap) m.callLimit m.callDepth := ⟨shaped, rfl, rfl⟩

/-- What scripts may define: any procedure, and classes whose members can be told apart. -/
def Policy.coherent : Policy where
  procedure _ := True
  cls := ClassDef.Coherent
  native _ := False
  exhausts := True
  member _ _ := trivial
  answer none _ _ := none.elim
  steady _ _ := trivial

theorem StmtKind.obeys_coherent (kind : StmtKind) : kind.Obeys .coherent := by
  cases kind with
  | classDef decl => exact fun _ done => ClassDef.coherent_of_ofDecl done
  | redim => exact fun _ => trivial
  | _ => trivial

/-- The values that lead to instances of their classes. Nothing is set aside. -/
@[reducible]
def shaping : ValueRealm .coherent where
  Reserve := Unit
  World := Heap
  order := { le := Heap.KeepsFields, le_refl := .refl, le_trans := fun _ _ _ => .trans }
  Extends _ _ := True
  state _ m := m.Shaped
  world := id
  value _ h v := v.Shaped h
  owned _ _ h v := v.Shaped h
  supplies shaped :=
    ⟨shaped.scopes.all, shaped.scopes.me, fun _ _ _ found => shaped.heap.field found,
      fun c a found _ => shaped.heap.arrays c a found, shaped.heap.dictionary, shaped.withStack,
      fun _ _ => trivial, fun f member _ given =>
        (Policy.shaped _).ends_native (shaped.natives f member) given⟩
  extends_refl _ := trivial
  simple simple := simple.value
  object := trivial
  mono shaped keeps := shaped.mono keeps
  release _ shaped := shaped
  owned_mono shaped keeps := shaped.mono keeps
  owned_of_isObject _ shaped := shaped
  procedure_iff := Iff.rfl
  cls_iff := Iff.rfl
  allowed shapes := shapes.coherent

namespace Machine.Shaped

theorem moves (shaped : m.Shaped) (moved : m.Moves (.shaped m.heap) m') :
    m'.Shaped ∧ m.heap.KeepsFields m'.heap :=
  ⟨.ofCarries (moved.carries shaped) moved.heap.fields, moved.heap.fields⟩

theorem enterGetter (shaped : m.Shaped) (cell : Nat) (name : Name) :
    (m.enterGetter cell name).Shaped ∧ m.heap.KeepsFields (m.enterGetter cell name).heap := by
  have keeps := m.keepsFields_enterGetter cell name
  exact ⟨.ofCarries (shaped.level.enterGetter cell name).carries keeps, keeps⟩

theorem leaveGetter (shaped : m.Shaped) (cell : Nat) (name : Name) :
    (m.leaveGetter cell name).Shaped ∧ m.heap.KeepsFields (m.leaveGetter cell name).heap := by
  have keeps := m.keepsFields_leaveGetter cell name
  exact ⟨.ofCarries (shaped.level.leaveGetter cell name).carries keeps, keeps⟩

end Machine.Shaped

section

variable {r r' : shaping.Reserve} {Q : Heap → α → Prop}

theorem shapes_of_worldly {act : Run α}
    (lasts : ∀ h h' a, h.KeepsFields h' → Q h a → Q h' a)
    (worldly : ∀ h', h.KeepsFields h' → act.Worldly (.shaped h') (Q h')) :
    shaping.Keeps r h Q fun _ => act := by
  intro m shaped known
  have worldly := worldly m.heap known
  have moved := worldly.moves m shaped
  obtain ⟨state, grows⟩ := shaped.moves moved
  refine ⟨rfl, state, grows, fun a done => ?_⟩
  exact lasts _ _ a grows ((worldly.ends m shaped).result done)

theorem shapes_of_worldly_true {act : Run α}
    (worldly : ∀ h', h.KeepsFields h' → act.Worldly (.shaped h') fun _ => True) :
    shaping.Keeps r h (fun _ _ => True) fun _ => act :=
  shapes_of_worldly (fun _ _ _ _ => id) worldly

theorem shapes_of_worldly_value {act : Run Value}
    (worldly : ∀ h', h.KeepsFields h' → act.Worldly (.shaped h') (Policy.shaped h').value) :
    shaping.Keeps r h (fun h v => v.Shaped h) fun _ => act :=
  shapes_of_worldly (fun _ _ _ keeps shaped => shaped.mono keeps) worldly

theorem shapes_attempt {act : Run α} (lasts : ∀ h h' a, h.KeepsFields h' → Q h a → Q h' a)
    (worldly : ∀ h', h.KeepsFields h' → act.Worldly (.shaped h') (Q h')) :
    shaping.Keeps r h (fun h => Ends .coherent (Q h)) fun _ => Run.attempt act :=
  (shapes_of_worldly lasts worldly).ends trivial

theorem shapes_effects : shaping.keeps.Effects shaping.Delivers where
  setPath path _ _ _ owned := shapes_of_worldly_true fun _ keeps =>
    .onHeap (fun g _ => g.advances_setPath trivial _ path (owned.mono keeps)) fun _ _ => trivial
  deepCopy shaped := shapes_of_worldly_value fun _ keeps => .deepCopy (shaped.mono keeps)
  setField cell name shaped := shapes_of_worldly_true fun _ keeps =>
    .modifyHeap fun g _ => g.advances_setField cell name (shaped.mono keeps)
  newDimensions uppers := shapes_of_worldly_value fun _ _ => .newDimensions uppers
  function name _ given :=
    shapes_attempt (fun _ _ _ keeps shaped v same => (shaped v same).mono keeps) fun _ keeps =>
      Function.worldly_call? name (Value.Shaped.monos given keeps)
  readObject ref name :=
    shapes_attempt (fun _ _ _ keeps shaped => shaped.mono keeps) fun _ _ =>
      ref.worldly_read name
  callObject ref name _ given :=
    shapes_attempt (fun _ _ _ keeps shaped => shaped.mono keeps) fun _ keeps =>
      ref.worldly_call name (Value.Shaped.monos given keeps)
  writeObject ref name shaped := shapes_of_worldly_true fun _ keeps =>
    ref.worldly_write name (shaped.mono keeps)
  writeItem ref _ given shaped := shapes_of_worldly_true fun _ keeps =>
    ref.worldly_writeItem (shaped.mono keeps) (Value.Shaped.monos given keeps)
  entries ref :=
    shapes_of_worldly
      (fun _ _ _ keeps shaped items same => Value.Shaped.monos (shaped items same) keeps)
      fun _ _ => ref.worldly_entries
  checkDeadline := shapes_of_worldly_true fun _ _ => .checkDeadline
  freshView := shapes_of_worldly_true fun _ _ =>
    .onHeap (fun g _ => g.advances_freshView) fun _ _ => trivial
  erase _ _ := shapes_of_worldly_true fun _ _ =>
    .modifyHeap fun g _ => g.advances_modifyArray trivial _ fun a _ => a.carries_erase
  resize uppers _ _ := shapes_of_worldly_true fun _ _ =>
    Interpreter.worldly_resizeArray trivial _ uppers

theorem shapes_creates {cls : ClassDef} {fields : Frame} (coherent : cls.Coherent)
    (names : fields.map (·.1) = cls.fields.map (·.1)) (shaped : Frame.All (Value.Shaped h) fields) :
    shaping.Keeps r h (fun h' cell => h'.Shapes cell cls) fun _ =>
      Run.onHeap (·.allocInstance { fields }) := by
  refine .onHeap fun m state known => ?_
  have moved := m.heap.advances_allocInstance (p := .shaped m.heap)
    (shaped.imp fun _ shaped => shaped.mono known)
  obtain ⟨after, grows⟩ := state.moves (.ofHeap m moved)
  exact ⟨after, grows, Heap.shapes_allocInstance coherent names⟩

end

/-- The rules keep the storage of instances in shape: an instance is created with the fields of its
class, and every other rule hands on references that it was given. -/
theorem shaping_upkeep : shaping.Upkeep where
  released _ shaped := shaped
  given _ _ owned := owned
  setsAside {_ m v} state shaped := by
    obtain ⟨moved, copied⟩ := m.heap.advances_deepCopy v shaped state.heap
    obtain ⟨after, grows⟩ := state.moves (.ofHeap m moved)
    exact ⟨(), trivial, after, grows, Value.Shaped.mono copied grows⟩
  define state shaped done :=
    (state.level.ofScopes (state.scopes.define shaped done) state.heap).carries
  constant state shaped done :=
    (state.level.ofScopes (state.scopes.setConstant shaped done) state.heap).carries
  assign state shaped done := by
    have keeps := (Machine.keepsVariables_assign done).fields
    exact ⟨.ofCarries (state.level.assign shaped done).1.carries keeps, keeps⟩
  enterGetter cell name state := state.enterGetter cell name
  leaveGetter cell name state := state.leaveGetter cell name
  enterWith state shaped := (state.level.enterWith shaped).carries
  leaveWith state := state.level.leaveWith.carries
  errorMode _ _ _ state := (state.level.errorMode _ _ _).carries
  compareMode _ state := by
    have names := state.scopes
    exact ⟨⟨names.frames, names.globals, names.constants, names.me⟩, state.heap, state.withStack,
      state.procedure, state.natives⟩
  enter state _ current := (state.level.enter trivial current).carries
  leave state inner keeps := (Machine.carries_shaped_mono state keeps).leave inner
  creates coherent names shaped := shapes_creates coherent names shaped
  effects := shapes_effects
  code kind := kind.obeys_coherent

theorem Script.Visits.shaped {n : Nat} {program : Block} (visits : Visits n program m m')
    (shaped : m.Shaped) : m'.Shaped := by
  have start := ValueRealm.Upkeep.Sound.hoist shaping_upkeep program (r := ()) m shaped (.refl _)
  obtain ⟨_, after⟩ := visits.fits shaping_upkeep ⟨(), (), trivial, start.state, trivial⟩
  exact after

theorem Host.shaped_machine (host : Host) (exchange : Exchange)
    (faithful : ∀ f ∈ host.natives, f.Faithful) : (host.machine exchange).Shaped where
  scopes := by
    refine .ofAll ⟨nofun, fun e member => ?_, fun e member => ?_⟩ nofun
    · obtain ⟨entry, -, rfl⟩ := List.mem_map.mp member
      trivial
    · exact (simple_builtinConstants e member).value
  heap := by
    refine ⟨fun c a found => ?_, fun c content found => ?_, fun c d found => ?_⟩ <;> cases found
  withStack := nofun
  procedure := nofun
  natives := faithful

end ServerScript
