import ServerScript.Proofs.Builtins
import ServerScript.Proofs.Securing

/-! The custody of what is set aside is kept up. Values that are read can be used; an assignment
delivers the copy that it has made, after its target was evaluated under a reserve that holds the
copy. -/
namespace ServerScript

variable {A : Nat → Nat → Prop} {R R' : Reserve A} {n : Nat} {m : Machine}

namespace Secure

theorem newArray {items : List Value} (values : ∀ v ∈ items, v.Usable R n) :
    Secure R n (Value.Usable R) fun _ => Run.newArray items := by
  refine .bind (Q := fun k c => (Value.array c).Usable R k)
    (Secure.onHeap fun h secures known => ?_)
    fun k _ c usable => .pure fun _ le => usable.mono le
  have content : ∀ v ∈ (⟨0, items.toArray⟩ : ArrayCell).items, v.Usable R h.arrays.size :=
    fun v member => (values v (List.mem_toArray.mp member)).mono known
  refine ⟨secures.allocArray content, (Heap.keeps_allocArray h _).size, ?_,
    secures.free (Nat.le_refl _)⟩
  rw [Heap.size_allocArray]
  exact Nat.lt_succ_self _

theorem build {f : Heap → Heap × Value}
    (builds : ∀ h : Heap, h.Builds (f h).1 ∧ (f h).2.Within h.arrays.size (f h).1.arrays.size) :
    Secure R n (Value.Usable R) fun _ => Run.onHeap f := by
  refine Secure.onHeap fun h secures _ => ?_
  obtain ⟨built, within⟩ := builds h
  exact ⟨secures.builds built, built.size, secures.usable_of_within within⟩

theorem newDimensions (uppers : List Int64) :
    Secure R n (Value.Usable R) fun _ => Run.newDimensions uppers := by
  refine .look fun m _ _ => .ite (fun _ => .bind (Q := fun _ _ => False) (.fault _) nofun)
    fun _ => Secure.build fun h => ?_
  obtain ⟨built, items⟩ := h.builds_withDimensions m.scopes.optionBase uppers
  exact ⟨built.allocArray items, Heap.within_new built _⟩

theorem onObjects {f : Heap → Heap × α} (same : ∀ h, (f h).1.arrays = h.arrays)
    (objects : ∀ (h : Heap) (l : Nat), n ≤ l → h.AllObjects (Value.Usable R l) →
      (f h).1.AllObjects (Value.Usable R l)) :
    Secure R n (fun _ _ => True) fun _ => Run.onHeap f := by
  refine Secure.onHeap fun h secures known => ?_
  have size := congrArg Array.size (same h)
  exact ⟨secures.ofObjects (same h) (objects h _ known secures.objects),
    Nat.le_of_eq size.symm, trivial⟩

theorem modifyObjects {f : Heap → Heap} (same : ∀ h, (f h).arrays = h.arrays)
    (objects : ∀ (h : Heap) (l : Nat), n ≤ l → h.AllObjects (Value.Usable R l) →
      (f h).AllObjects (Value.Usable R l)) :
    Secure R n (fun _ _ => True) fun _ => Run.modifyHeap f := by
  refine Secure.modifyHeap fun h secures known => ?_
  have size := congrArg Array.size (same h)
  exact ⟨secures.ofObjects (same h) (objects h _ known secures.objects), Nat.le_of_eq size.symm⟩

theorem perform (action : StoreAction) :
    Secure R n (fun _ _ => True) fun _ => Run.perform action := by
  refine .look fun m _ _ => .look fun m' _ _ => .ite (fun _ => ?_) fun _ => ?_
  · exact .bind (Q := fun _ _ => False) (.fault _) nofun
  · refine .bind (Q := fun _ _ => True) (.ofExcept fun _ _ _ _ => trivial) fun l le store _ => ?_
    exact Secure.modifySite _

end Secure

/-- Built-in functions and objects in the custody of what is set aside: the arrays that they answer
with are new, were among their arguments or are held by a dictionary. -/
def custodyBuiltins (A : Nat → Nat → Prop) : BuiltinWalk Bool (custody A) where
  toWalk := (custody A).keeps
  lookAt _ next := .lookAt fun m secures known => next m _ known ((custody A).supplies secures)
  newArray usable := Secure.newArray usable
  allocDictionary := Secure.onObjects (fun _ => rfl) fun _ _ _ all => all.allocDictionary
  modifyDictionary {_ _ change} cell keeps indexes :=
    Secure.modifyObjects (f := (·.modifyDictionary cell change)) (fun _ => rfl) fun _ l known all =>
      all.modifyDictionary cell (fun d => keeps d l known) indexes
  toValue s := Secure.build fun h => h.builds_toValue s
  freshView := Secure.onObjects (fun _ => rfl) fun _ _ _ all => ⟨all.fields, all.dictionaries⟩
  modifySite {_ _ f} _ := Secure.modifySite f
  modifyControl {_ _ f} _ _ := Secure.modifyControl f
  modifyErr f := Secure.modifyErr f
  perform action := Secure.perform action

namespace Machine.Secures

theorem assign (secures : m.Secures R) {name : Name} {v : Value} {scopes : Scopes} {heap : Heap}
    {result : Assigned} (usable : v.Usable R m.cells)
    (done : m.scopes.assign m.heap name v = .ok (scopes, heap, result)) :
    Secures R { m with scopes, heap } ∧ m.cells ≤ heap.arrays.size := by
  obtain ⟨rfl, rfl, -⟩ | ⟨-, rfl, rfl, -⟩ | ⟨i, rfl, rfl, -⟩ | ⟨-, -, rfl, rfl, -⟩ :=
    Scopes.assign_cases done
  · exact ⟨secures.ofScopes (secures.scopes.setInFrames usable), Nat.le_refl _⟩
  · exact ⟨secures.ofScopes (secures.scopes.setGlobal usable), Nat.le_refl _⟩
  · have same : (m.heap.setField i.cell name v).arrays = m.heap.arrays := by
      rw [Heap.setField]
      split <;> rfl
    have grows : m.cells ≤ (m.heap.setField i.cell name v).arrays.size :=
      Nat.le_of_eq (congrArg Array.size same).symm
    have written := secures.heap.ofObjects same
      (secures.heap.objects.setField i.cell name usable)
    exact ⟨secures.ofHeap written grows, grows⟩
  · exact ⟨secures, Nat.le_refl _⟩

theorem ofObjects (secures : m.Secures R) {h : Heap} (same : h.arrays = m.heap.arrays)
    (objects : h.AllObjects (Value.Usable R m.cells)) :
    Secures R { m with heap := h } ∧ m.cells ≤ h.arrays.size := by
  have grows : m.cells ≤ h.arrays.size := Nat.le_of_eq (congrArg Array.size same).symm
  exact ⟨secures.ofHeap (secures.heap.ofObjects same objects) grows, grows⟩

theorem enterGetter (secures : m.Secures R) (cell : Nat) (name : Name) :
    (m.enterGetter cell name).Secures R ∧ m.cells ≤ (m.enterGetter cell name).cells := by
  have objects := secures.heap.objects
  refine secures.ofObjects ?_ ?_ <;> rw [Interpreter.enterGetter]
  · split
    · rfl
    · split <;> rfl
  · split
    · exact objects
    · split
      · exact objects
      · exact objects.modifyInstance cell fun _ fields => fields

theorem leaveGetter (secures : m.Secures R) (cell : Nat) (name : Name) :
    (m.leaveGetter cell name).Secures R ∧ m.cells ≤ (m.leaveGetter cell name).cells :=
  secures.ofObjects rfl (secures.heap.objects.modifyInstance cell fun _ fields => fields)

theorem enter (secures : m.Secures R) (decl : Procedure) (this : Option InstanceRef) :
    (Interpreter.enter decl this m).Secures R := by
  refine ⟨secures.heap, ⟨?_, secures.scopes.globals, secures.scopes.constants⟩, nofun,
    secures.natives⟩
  exact List.forall_mem_cons.mpr ⟨⟨nofun, nofun⟩, secures.scopes.frames⟩

theorem leave {m' : Machine} (secures : m.Secures R) (inner : m'.Secures R)
    (grows : m.cells ≤ m'.cells) : (Interpreter.leave (.ofMachine m) m').Secures R := by
  refine ⟨inner.heap, ⟨fun scope member => ?_, inner.scopes.globals, inner.scopes.constants⟩,
    fun v member => (secures.withStack v member).mono grows, inner.natives⟩
  exact inner.scopes.frames scope (List.mem_of_mem_drop member)

end Machine.Secures

namespace Secure

theorem allocInstance {fields : Frame} (usable : Frame.All (Value.Usable R n) fields) :
    Secure R n (fun _ _ => True) fun _ => Run.onHeap (·.allocInstance { fields }) := by
  refine .onObjects (f := (·.allocInstance { fields })) (fun _ => rfl) fun h l le all => ?_
  exact all.allocInstance (usable.imp fun _ usable => usable.mono le)

theorem setField {v : Value} (cell : Nat) (name : Name) (usable : v.Usable R n) :
    Secure R n (fun _ _ => True) fun _ => Run.modifyHeap (·.setField cell name v) := by
  refine .modifyObjects (f := (·.setField cell name v)) (fun h => ?_) fun h l le all => ?_
  · rw [Heap.setField]
    split <;> rfl
  · exact all.setField _ _ (usable.mono le)

theorem erase {cell : Nat} (usable : (Value.array cell).Usable R n) :
    Secure R n (fun _ _ => True) fun _ => Run.modifyHeap (·.modifyArray cell (·.erase)) := by
  refine .modifyHeap fun h secures le => ⟨?_, by simp [Heap.modifyArray]⟩
  exact secures.erase (Nat.lt_of_lt_of_le usable.1 le) usable.2

theorem resizeArray {cell : Nat} (uppers : List Int64) (usable : (Value.array cell).Usable R n) :
    Secure R n (fun _ _ => True) fun _ => Interpreter.resizeArray cell uppers := by
  intro m secures known
  have usable := usable.mono known
  cases done :
    Heap.resizePreserve m.heap.arrayDepth m.heap ((m.heap.array? cell).getD {}) uppers with
  | error f =>
    have same : (Interpreter.resizeArray cell uppers).exec m = (.error (.fault f), m) := by
      simp only [Interpreter.resizeArray, Run.exec_get_bind, done]
      rfl
    refine .unchanged same same secures ?_
    rintro _ ⟨⟩
  | ok result =>
    have same : (Interpreter.resizeArray cell uppers).exec m =
        (.ok ⟨⟩, { m with heap := result.1.setArray cell result.2 }) := by
      simp only [Interpreter.resizeArray, Run.exec_get_bind, done]
      rfl
    obtain ⟨heap, grows⟩ := secures.heap.resize usable.1 usable.2 done
    refine ⟨rfl, ?_, ?_, fun _ _ => trivial⟩ <;> rw [same]
    · exact secures.ofHeap heap grows
    · exact grows

theorem checkDeadline : Secure R n (fun _ _ => True) fun _ => Run.checkDeadline := by
  refine .bind (Secure.modifyControl _) fun l le _ _ => .look fun m secures known => ?_
  exact .ite (fun late => .error _) fun inTime => .pure fun _ _ => trivial

theorem call? (name : String) {args : List Value} (given : ∀ v ∈ args, v.Usable R n) :
    Secure R n (fun k found => ∀ v, found = some v → v.Usable R k) fun _ =>
      Function.call? name args := Function.walk_call? (J := custodyBuiltins A) name given

theorem readObject (ref : ObjectRef) (name : String) :
    Secure R n (Value.Usable R) fun _ => ref.members.read name :=
  (ref.serves (custodyBuiltins A)).read name

theorem callObject (ref : ObjectRef) (name : String) {args : List Value}
    (given : ∀ v ∈ args, v.Usable R n) :
    Secure R n (Value.Usable R) fun _ => ref.members.call name args :=
  (ref.serves (custodyBuiltins A)).call name given

theorem effects : (custody A).keeps.Effects (custody A).Delivers where
  setPath path _ more usable owned := Secure.setPath more usable path owned
  deepCopy usable := Secure.deepCopy usable
  setField cell name usable := Secure.setField cell name usable
  newDimensions uppers := Secure.newDimensions uppers
  function name _ given := (Secure.call? name given).ends trivial
  readObject ref name := (Secure.readObject ref name).ends trivial
  callObject ref name _ given := (Secure.callObject ref name given).ends trivial
  writeObject ref name usable := (ref.serves (custodyBuiltins A)).write name usable
  writeItem ref _ given usable := (ref.serves (custodyBuiltins A)).writeItem given usable
  entries ref := (ref.serves (custodyBuiltins A)).entries
  checkDeadline := Secure.checkDeadline
  freshView := (custodyBuiltins A).freshView
  erase _ usable := Secure.erase usable
  resize uppers _ usable := Secure.resizeArray uppers usable

end Secure

theorem custody_upkeep (A : Nat → Nat → Prop) : (custody A).Upkeep where
  released more secures := secures.release more
  given _ secures owned := secures.heap.usable_of_owned owned
  setsAside secures usable :=
    ⟨_, secures.extends_aside usable, secures.copied usable,
      (secures.heap.copied usable).builds.size, secures.owned_aside usable⟩
  define secures usable done := secures.ofScopes (secures.scopes.define usable done)
  constant secures usable done := secures.ofScopes (secures.scopes.setConstant usable done)
  assign secures usable done := secures.assign usable done
  enterGetter cell name secures := secures.enterGetter cell name
  leaveGetter cell name secures := secures.leaveGetter cell name
  enterWith secures usable :=
    ⟨secures.heap, secures.scopes, List.forall_mem_cons.mpr ⟨usable, secures.withStack⟩,
      secures.natives⟩
  leaveWith secures :=
    ⟨secures.heap, secures.scopes,
      fun v member => secures.withStack v (List.mem_of_mem_drop member), secures.natives⟩
  errorMode _ _ _ secures := ⟨secures.heap, secures.scopes, secures.withStack, secures.natives⟩
  compareMode _ secures :=
    ⟨secures.heap, ⟨secures.scopes.frames, secures.scopes.globals, secures.scopes.constants⟩,
      secures.withStack, secures.natives⟩
  enter secures _ _ := secures.enter _ _
  leave secures inner grows := secures.leave inner grows
  creates _ _ usable := (Secure.allocInstance usable).weaken fun _ _ _ => trivial
  effects := Secure.effects
  code kind := kind.obeys_any

end ServerScript
