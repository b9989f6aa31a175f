import ServerScript.Proofs.SecureSteps

/-! Where an assignment puts its value. The target is evaluated to a place, which does not depend
on the value, and then the value is put there: into a variable, a field, an element of an array or
an item of a dictionary, which has it afterwards, or into a property. -/
namespace ServerScript

open Relation

inductive Place where
  /-- A variable of a running procedure, or a global one. -/
  | named (name : Name)
  | field (i : InstanceRef) (name : Name)
  /-- An element that is reached through nested arrays. -/
  | element (cell : Nat) (path : List Int64)
  | item (ref : ObjectRef) (index : List Value)
  /-- A property of a built-in object. -/
  | property (ref : ObjectRef) (name : String)
  /-- A property of an instance with the procedure that writes it. -/
  | accessor (bound : Nat) (i : InstanceRef) (writer : Procedure) (index : List Value)

def Scopes.setVariable (s : Scopes) (name : Name) (v : Value) : Scopes :=
  if (s.frameVariable? name).isSome then { s with frames := setInFrames name v s.frames }
  else s.setGlobal name v

def Scopes.stored? (s : Scopes) (name : Name) : Option Value :=
  (s.frameVariable? name).or (s.global? name)

def Place.put : Place → Value → Run Unit
  | .named name, v => modify fun m => { m with scopes := m.scopes.setVariable name v }
  | .field i name, v => Run.modifyHeap (·.setField i.cell name v)
  | .element cell path, v => do
    if !(← Run.onHeap (·.setPath cell path v)) then Run.error .subscriptOutOfRange
  | .item ref index, v => ref.members.writeItem index v
  | .property ref name, v => ref.members.write name v
  | .accessor n i writer index, v =>
    discard ((Interpreter.within n).callWith writer (some i) (index ++ [v]))

theorem Place.exec_put_named {m : Machine} {name : Name} {v : Value} {s : Scopes}
    (same : m.scopes.setVariable name v = s) :
    ((Place.named name).put v).exec m = (.ok ⟨⟩, { m with scopes := s }) := by
  rw [← same]
  rfl

namespace Interpreter

/-- The place that a member stands for; an element of what it reads as is located further. -/
def locateMember (n : Nat) (element : Value → List Value → Name → Run Place) (i : InstanceRef)
    (name : Name) (index : List Value) (reach : Reach) : Run Place := do
  let name ← Run.ofExcept (memberName i.cls name)
  if fieldInReach i.cls name reach then
    if index.isEmpty then return .field i name
    else element (← fieldValue i name) index name
  else
    match writer? i.cls name false reach with
    | some writer => return .accessor n i writer index
    | none =>
      match getter? i.cls name reach with
      | some getter =>
        if index.isEmpty then Run.error (.propertyNotWritable name.text)
        else
          let container ← guardGetter i name do
            return (← (within n).callWith getter (some i) []).value
          element container index name
      | none => Run.error (.propertyNotWritable name.text)

def locateElement : Nat → Value → List Value → Name → Run Place
  | 0, _, _, _ => Run.exhausted
  | n + 1, container, index, name =>
    match container with
    | .array cell => return .element cell (index.map Value.toWord)
    | .object ref => return .item ref index
    | .inst cell cls => locateMember n (locateElement n) ⟨cell, cls⟩ .blank index .outside
    | _ => Run.error (.typeMismatch name.text)

def locateName (n : Nat) (name : Name) : Run Place := do
  let m ← get
  if m.scopes.isConstant name then Run.error (.assignToConstant name.text)
  else if (m.scopes.frameVariable? name).isSome then return .named name
  else
    match m.scopes.me with
    | none => return .named name
    | some i =>
      if (m.heap.field? i.cell name).isSome then return .field i name
      else if i.cls.hasWriter name then locateMember n (locateElement n) i name [] .inside
      else return .named name

def locateOn (n : Nat) (target : Value) (name : Name) (index : List Value) : Run Place := do
  match target with
  | .inst cell cls =>
    locateMember n (locateElement n) ⟨cell, cls⟩ name index (← Run.reachOf ⟨cell, cls⟩)
  | .object ref =>
    if index.isEmpty then return .property ref name.text
    else locateElement n (← readObject ref name) index name
  | _ => Run.error (.objectRequired name.text)

def locate (n : Nat) (target : Expr) : Run Place := do
  match target with
  | .ident name => locateName n name
  | .call callee index =>
    let index := (← arguments (within n) index).values
    match callee with
    | .ident name =>
      match ← Run.resolve name with
      | .value container => locateElement n container index name
      | .member i => locateMember n (locateElement n) i name index .inside
      | .missing => Run.error (.undefinedVariable name.text)
    | .member object name => locateOn n (← (within n).expr object) name index
    | .withMember name => locateOn n (← Run.withTarget name) name index
    | other => locateElement n (← (within n).expr other) index .blank
  | .member object name => locateOn n (← (within n).expr object) name []
  | .withMember name => locateOn n (← Run.withTarget name) name []
  | _ => Run.error (.runtime "invalid assignment target")

section

variable {n : Nat} {v : Value}

theorem writeMember_eq_locate
    (stores : ∀ container index name, (within n).store container index v name =
      locateElement n container index name >>= (·.put v)) (i : InstanceRef) (name : Name)
    (index : List Value) (reach : Reach) :
    (within n).writeMember i name index v false reach =
      locateMember n (locateElement n) i name index reach >>= (·.put v) := by
  rw [writeMember, locateMember, bind_assoc]
  refine bind_congr fun member => ?_
  split
  · split
    · rfl
    · simp only [stores, bind_assoc]
  · cases writer? i.cls member false reach with
    | some writer => rfl
    | none =>
      cases getter? i.cls member reach with
      | none => rfl
      | some getter =>
        dsimp only
        split
        · rfl
        · simp only [stores, bind_assoc]

theorem store_eq_locate (n : Nat) (container : Value) (index : List Value) (v : Value)
    (name : Name) : (within n).store container index v name =
      locateElement n container index name >>= (·.put v) := by
  induction n generalizing container index name with
  | zero => rfl
  | succ n ih =>
    change (within n).storeElement container index v name = _
    cases container with
    | inst cell cls => exact writeMember_eq_locate ih ⟨cell, cls⟩ .blank index .outside
    | _ => rfl

theorem assignName_eq_locate (n : Nat) (name : Name) (v : Value) :
    (within n).assignName name v false = locateName n name >>= (·.put v) := by
  have members := writeMember_eq_locate fun container index name =>
    store_eq_locate n container index v name
  funext m
  change (assignName (within n) name v false).exec m = (locateName n name >>= (·.put v)).exec m
  rw [assignName, Run.assignWith, locateName, bind_assoc, bind_assoc, Run.exec_get_bind,
    Run.exec_get_bind, Scopes.assign]
  by_cases constant : m.scopes.isConstant name
  · simp only [if_pos constant]
    rfl
  simp only [if_neg constant]
  by_cases known : (m.scopes.frameVariable? name).isSome
  · have same : m.scopes.setVariable name v =
        { m.scopes with frames := Scopes.setInFrames name v m.scopes.frames } := if_pos known
    simp only [if_pos known]
    exact (Place.exec_put_named same).symm
  have same : m.scopes.setVariable name v = m.scopes.setGlobal name v := if_neg known
  have global := (Place.exec_put_named same).symm
  simp only [if_neg known]
  cases m.scopes.me with
  | none => exact global
  | some i =>
    dsimp only
    by_cases field : (m.heap.field? i.cell name).isSome
    · simp only [if_pos field]
      rfl
    · simp only [if_neg field]
      by_cases writer : i.cls.hasWriter name
      · have written := congrArg (Run.exec · m) (members i name [] .inside)
        simp only [if_pos writer]
        exact written
      · simp only [if_neg writer]
        exact global

theorem assignOn_eq_locate (n : Nat) (target : Value) (name : Name) (index : List Value)
    (v : Value) :
    (within n).assignOn target name index v false = locateOn n target name index >>= (·.put v) := by
  have members := writeMember_eq_locate fun container index name =>
    store_eq_locate n container index v name
  cases target with
  | inst cell cls => simp only [assignOn, locateOn, members, bind_assoc]
  | object ref =>
    rw [assignOn, locateOn]
    split
    · rfl
    · simp only [store_eq_locate, bind_assoc]
  | _ => rfl

theorem assignTo_eq_locate (n : Nat) (target : Expr) (v : Value) :
    (within n).assignTo target v false = locate n target >>= (·.put v) := by
  have members := writeMember_eq_locate fun container index name =>
    store_eq_locate n container index v name
  cases target with
  | ident name => exact assignName_eq_locate n name v
  | call callee index =>
    rw [assignTo, locate, bind_assoc]
    refine bind_congr fun args => ?_
    cases callee with
    | ident name =>
      dsimp only
      rw [assignIndexed, bind_assoc]
      refine bind_congr fun found => ?_
      cases found with
      | value container => exact store_eq_locate n container args.values v name
      | member i => exact members i name args.values .inside
      | missing => rfl
    | member | withMember => simp only [assignOn_eq_locate, bind_assoc]
    | _ => simp only [store_eq_locate, bind_assoc]
  | member | withMember => simp only [assignTo, locate, assignOn_eq_locate, bind_assoc]
  | _ => rfl

end

end Interpreter

section

variable {A : Nat → Nat → Prop} {R : Reserve A} {n k : Nat}

def Place.Usable (R : Reserve A) (n : Nat) : Place → Prop
  | .element cell _ => (Value.array cell).Usable R n
  | _ => True

namespace Interpreter

theorem secure_locateMember {element : Value → List Value → Name → Run Place}
    (elements : ∀ k container index name, container.Usable R k → (∀ v ∈ index, v.Usable R k) →
      Secure R k (Place.Usable R) fun _ => element container index name)
    (i : InstanceRef) (name : Name) {index : List Value} (indexed : ∀ v ∈ index, v.Usable R k)
    (reach : Reach) :
    Secure R k (Place.Usable R) fun _ => locateMember n element i name index reach := by
  have sound := (custody_upkeep A).sound_within n
  refine .bind (Q := fun _ _ => True) (.ofExcept fun _ _ _ _ => trivial) fun l known member _ => ?_
  have indexed := (custody A).monos indexed known
  refine .ite (fun field => .ite (fun filled => ?_) fun noIndex => ?_) fun noField => ?_
  · exact .pure fun _ _ => trivial
  · refine .bind ((custody_upkeep A).exprs.fieldValue i member) fun j le container usable => ?_
    exact elements j container index member usable ((custody A).monos indexed le)
  · cases writer? i.cls member false reach with
    | some writer => exact .pure fun _ _ => trivial
    | none =>
      cases getter? i.cls member reach with
      | none => exact .error _
      | some getter =>
        refine .ite (fun noIndex => .error _) fun filled => ?_
        have read : (custody_upkeep A).exprs.holds R l (Value.Usable R) fun _ =>
            guardGetter i member do
              return (← callWith (within n) getter (some i) []).value := by
          refine ExprWalk.guarded _ (Walk.map _ (ExprWalk.callWith sound.invoke trivial ?_ nofun) ?_)
          · exact fun _ _ => trivial
          · exact fun _ result usable _ le => usable.value.mono le
        refine .bind read fun j le container usable => ?_
        exact elements j container index member usable ((custody A).monos indexed le)

theorem secure_locateElement (n : Nat) {container : Value} {index : List Value} (name : Name)
    (usable : container.Usable R k) (indexed : ∀ v ∈ index, v.Usable R k) :
    Secure R k (Place.Usable R) fun _ => locateElement n container index name := by
  induction n generalizing container index name k with
  | zero => exact .throw _
  | succ n ih =>
    cases container with
    | array cell => exact .pure fun _ le => usable.mono le
    | object ref => exact .pure fun _ _ => trivial
    | inst cell cls =>
      refine secure_locateMember (fun _ _ _ name usable indexed => ?_) ⟨cell, cls⟩ _ indexed _
      exact ih name usable indexed
    | _ => exact .error _

theorem secure_locateName (n : Nat) (name : Name) :
    Secure R k (Place.Usable R) fun _ => locateName n name := by
  refine .look fun m secures known => .ite (fun constant => .error _) fun writable => ?_
  refine .ite (fun here => .pure fun _ _ => trivial) fun outside => ?_
  cases m.scopes.me with
  | none => exact .pure fun _ _ => trivial
  | some i =>
    refine .ite (fun field => .pure fun _ _ => trivial) fun noField => ?_
    refine .ite (fun member => ?_) fun other => .pure fun _ _ => trivial
    exact secure_locateMember (fun _ _ _ => secure_locateElement n) i name (List.forall_mem_nil _) _

theorem secure_locateOn (n : Nat) (target : Value) (name : Name) {index : List Value}
    (indexed : ∀ v ∈ index, v.Usable R k) :
    Secure R k (Place.Usable R) fun _ => locateOn n target name index := by
  cases target with
  | inst cell cls =>
    refine .bind ((custody_upkeep A).exprs.reachOf ⟨cell, cls⟩) fun l le reach _ => ?_
    exact secure_locateMember (fun _ _ _ => secure_locateElement n) ⟨cell, cls⟩ name
      ((custody A).monos indexed le) reach
  | object ref =>
    refine .ite (fun noIndex => .pure fun _ _ => trivial) fun filled => ?_
    refine .bind ((custody_upkeep A).exprs.readsObject ref name) fun l le container usable => ?_
    exact secure_locateElement n _ usable ((custody A).monos indexed le)
  | _ => exact .error _

theorem secure_locate (n : Nat) (target : Expr) :
    Secure R k (Place.Usable R) fun _ => locate n target := by
  have sound := (custody_upkeep A).sound_within n
  cases target with
  | ident name => exact secure_locateName n name
  | call callee index =>
    refine .bind (ExprWalk.arguments fun e _ => sound.expr e) fun l _ args indexed => ?_
    cases callee with
    | ident name =>
      refine .bind ((custody_upkeep A).exprs.resolve name) fun j le found usable => ?_
      have indexed := (custody A).monos indexed le
      cases found with
      | value container => exact secure_locateElement n name usable indexed
      | member i =>
        exact secure_locateMember (fun _ _ _ => secure_locateElement n) i name indexed _
      | missing => exact .error _
    | member object name =>
      refine .bind (sound.expr object R l) fun j le target _ => ?_
      exact secure_locateOn n target name ((custody A).monos indexed le)
    | withMember name =>
      refine .bind ((custody_upkeep A).exprs.withTarget name) fun j le target _ => ?_
      exact secure_locateOn n target name ((custody A).monos indexed le)
    | _ =>
      refine .bind (sound.expr _ R l) fun j le container usable => ?_
      exact secure_locateElement n _ usable ((custody A).monos indexed le)
  | member object name =>
    refine .bind (sound.expr object R k) fun l le target _ => ?_
    exact secure_locateOn n target name nofun
  | withMember name =>
    refine .bind ((custody_upkeep A).exprs.withTarget name) fun l le target _ => ?_
    exact secure_locateOn n target name nofun
  | _ => exact .error _

end Interpreter

end

namespace Scopes

variable {s : Scopes} {name : Name}

theorem findSome?_setInFrames (v : Value) {frames : List Scope}
    (found : (frames.findSome? fun scope => lookupName name scope.locals).isSome) :
    (setInFrames name v frames).findSome? (fun scope => lookupName name scope.locals) = some v := by
  induction frames with
  | nil => cases found
  | cons scope rest ih =>
    rw [setInFrames]
    split
    · simp [lookupName_putName]
    · rename_i missing
      have missing := Option.not_isSome_iff_eq_none.mp missing
      rw [List.findSome?_cons, missing] at found ⊢
      exact ih found

theorem stored?_setVariable (s : Scopes) (name : Name) (v : Value) :
    (s.setVariable name v).stored? name = some v := by
  rw [setVariable]
  split
  · rename_i known
    rw [stored?, frameVariable?, findSome?_setInFrames v known]
    rfl
  · rename_i missing
    have missing : (s.setGlobal name v).frameVariable? name = none :=
      Option.not_isSome_iff_eq_none.mp missing
    rw [stored?, missing, global?, setGlobal, lookupName_putName, if_pos rfl]
    rfl

end Scopes

namespace Heap

variable {P : Value → Prop} {h : Heap} {cell : Nat}

theorem item_modifyDictionary (objects : h.AllObjects P) (small : cell < h.dictionaries.size)
    (key v : Value) :
    ((h.modifyDictionary cell (·.insert key v)).dictionary cell).item key = v := by
  have found := Array.getElem?_eq_getElem small
  have indexed := (objects.dictionaries cell _ found).2
  rw [dictionary, modifyDictionary, Array.getElem?_modify]
  simp only [found, if_true, Option.map_some, Option.getD_some]
  exact indexed.item_insert key v

end Heap

namespace Place

def Stores : Place → Prop
  | .named _ | .field .. | .element .. | .item (.dictionary _) _ => True
  | _ => False

def Present (m : Machine) : Place → Prop
  | .field i name => (m.heap.field? i.cell name).isSome
  | .item (.dictionary cell) _ => cell < m.heap.dictionaries.size
  | _ => True

def Holds (m : Machine) (v : Value) : Place → Prop
  | .named name => m.scopes.stored? name = some v
  | .field i name => m.heap.field? i.cell name = some v
  | .element cell path => (m.heap.array? cell).bind (m.heap.getPath · path) = some v
  | .item (.dictionary cell) index => (m.heap.dictionary cell).item (Value.arg index 0) = v
  | _ => False

variable {P : Value → Prop} {place : Place} {m m' : Machine} {v : Value}

theorem setPath_of_put {cell : Nat} {path : List Int64}
    (done : ((Place.element cell path).put v).exec m = (.ok ⟨⟩, m')) :
    (m.heap.setPath cell path v).2 = true ∧
      m' = { m with heap := (m.heap.setPath cell path v).1 } := by
  have run : ((Place.element cell path).put v).exec m =
      (if !(m.heap.setPath cell path v).2 then Run.error .subscriptOutOfRange else pure ⟨⟩ :
        Run Unit).exec { m with heap := (m.heap.setPath cell path v).1 } := rfl
  rw [run] at done
  cases written : (m.heap.setPath cell path v).2 with
  | true =>
    rw [written] at done
    exact ⟨rfl, (Prod.mk.inj done).2.symm⟩
  | false =>
    rw [written] at done
    cases (Prod.mk.inj done).1

theorem holds_of_put (acyclic : m.heap.Acyclic) (objects : m.heap.AllObjects P)
    (stores : place.Stores) (present : place.Present m)
    (done : (place.put v).exec m = (.ok ⟨⟩, m')) : place.Holds m' v := by
  cases place with
  | named name =>
    obtain rfl : m' = _ := (Prod.mk.inj done).2.symm
    exact m.scopes.stored?_setVariable name v
  | field i name =>
    obtain rfl : m' = _ := (Prod.mk.inj done).2.symm
    exact (Heap.field?_setField ..).trans (if_pos ⟨rfl, rfl, present⟩)
  | element cell path =>
    obtain ⟨written, rfl⟩ := setPath_of_put done
    exact Heap.getPath_setPath acyclic written
  | item ref index =>
    cases ref with
    | dictionary cell =>
      obtain rfl : m' = _ := (Prod.mk.inj done).2.symm
      exact Heap.item_modifyDictionary objects present _ v
    | _ => exact stores.elim
  | _ => exact stores.elim

theorem arrays_of_put (stores : place.Stores) (done : (place.put v).exec m = (.ok ⟨⟩, m')) :
    m'.heap.arrays = m.heap.arrays ∨
      ∃ cell path, place = .element cell path ∧ m'.heap = (m.heap.setPath cell path v).1 := by
  cases place with
  | named name =>
    obtain rfl : m' = _ := (Prod.mk.inj done).2.symm
    exact .inl rfl
  | field i name =>
    obtain rfl : m' = _ := (Prod.mk.inj done).2.symm
    refine .inl ?_
    dsimp only
    rw [Heap.setField]
    split <;> rfl
  | element cell path =>
    obtain ⟨-, rfl⟩ := setPath_of_put done
    exact .inr ⟨cell, path, rfl, rfl⟩
  | item ref index =>
    cases ref with
    | dictionary cell =>
      obtain rfl : m' = _ := (Prod.mk.inj done).2.symm
      exact .inl rfl
    | _ => exact stores.elim
  | _ => exact stores.elim

end Place
end ServerScript
