import ServerScript.Proofs.Custody
import ServerScript.Proofs.Keeping

/-! Computations that secure what is set aside. What a value may refer to depends on the state: an
array that one step makes can be used by the next one. The world is therefore the number of cells
that are known to exist; it only grows, and what could be used before can be used later. -/
namespace ServerScript

variable {A : Nat → Nat → Prop} {R R' : Reserve A} {n k : Nat}

def Machine.cells (m : Machine) : Nat := m.heap.arrays.size

theorem Native.Honest.ends {f : Native} {args : List Value} (honest : f.Honest)
    (given : ∀ a ∈ args, a.Usable R n) : Ends .any (Value.Usable R n) (f.run args) := by
  cases done : f.run args with
  | error s => exact fun _ => trivial
  | ok v =>
    cases v with
    | array c => exact given _ (honest args c done)
    | _ => trivial

@[reducible]
def custody (A : Nat → Nat → Prop) : ValueRealm .any where
  Reserve := Reserve A
  World := Nat
  order := inferInstance
  Extends := Reserve.Extends
  state R m := m.Secures R
  world h := h.arrays.size
  value := Value.Usable
  owned R R' _ := Value.Owned R R'
  supplies secures :=
    ⟨secures.scopes, fun _ _ => trivial, fun _ _ _ found => secures.heap.objects.field found,
      fun c a found usable => secures.heap.items c a found usable.2,
      fun cell => (secures.heap.objects.dictionary cell).1, secures.withStack, fun _ _ => trivial,
      fun f member _ given => (secures.natives f member).ends given⟩
  extends_refl := .refl
  simple simple := simple.usable
  object := trivial
  mono usable le := usable.mono le
  release more usable := usable.release more
  owned_mono owned _ := owned
  owned_of_isObject object _ := Value.owned_of_isObject object
  procedure_iff := Iff.rfl
  cls_iff := Iff.rfl
  allowed _ := trivial

/-- A computation that keeps clear of a reserve, from all states with enough cells. -/
def Secure (R : Reserve A) (n : Nat) (Q : Nat → α → Prop) (x : Bool → Run α) : Prop :=
  (custody A).Keeps R n Q x

namespace Machine

variable {m : Machine}

theorem Secures.release (secures : m.Secures R') (more : R.Extends R') : m.Secures R := by
  refine ⟨secures.heap.release more, ?_, fun v member => ?_, secures.natives⟩
  · exact secures.scopes.imp fun _ usable => usable.release more
  · exact (secures.withStack v member).release more

theorem Secures.ofHeap (secures : m.Secures R) {h : Heap} (heap : h.Secures R)
    (grows : m.cells ≤ h.arrays.size) : Secures R { m with heap := h } := by
  refine ⟨heap, ?_, fun v member => ?_, secures.natives⟩
  · exact secures.scopes.imp fun _ usable => usable.mono grows
  · exact (secures.withStack v member).mono grows

theorem Secures.ofScopes (secures : m.Secures R) {s : Scopes}
    (scopes : s.All (Value.Usable R m.cells)) : Secures R { m with scopes := s } :=
  ⟨secures.heap, scopes, secures.withStack, secures.natives⟩

end Machine

namespace Secure

variable {Q : Nat → α → Prop}

theorem modify {f : Machine → Machine} (heap : ∀ m, (f m).heap = m.heap)
    (scopes : ∀ m, (f m).scopes = m.scopes) (targets : ∀ m, (f m).withStack = m.withStack)
    (natives : ∀ m, (f m).natives = m.natives) :
    Secure R n (fun _ _ => True) fun _ => (modify f : Run PUnit) := by
  refine Realm.Keeps.modify fun m secures _ => ⟨⟨?_, ?_, ?_, ?_⟩, ?_⟩
  · rw [heap]
    exact secures.heap
  · rw [heap, scopes]
    exact secures.scopes
  · rw [heap, targets]
    exact secures.withStack
  · rw [natives]
    exact secures.natives
  · exact Nat.le_of_eq (congrArg (·.arrays.size) (heap m).symm)

theorem onHeap {f : Heap → Heap × α}
    (keeps : ∀ h : Heap, h.Secures R → n ≤ h.arrays.size → (f h).1.Secures R ∧
      h.arrays.size ≤ (f h).1.arrays.size ∧ Q (f h).1.arrays.size (f h).2) :
    Secure R n Q fun _ => Run.onHeap f := by
  intro m secures known
  obtain ⟨heap, grows, result⟩ := keeps m.heap secures.heap known
  refine ⟨rfl, secures.ofHeap heap grows, grows, fun a same => ?_⟩
  cases same
  exact result

theorem modifyHeap {f : Heap → Heap}
    (keeps : ∀ h : Heap, h.Secures R → n ≤ h.arrays.size → (f h).Secures R ∧
      h.arrays.size ≤ (f h).arrays.size) :
    Secure R n (fun _ _ => True) fun _ => Run.modifyHeap f := by
  intro m secures known
  obtain ⟨heap, grows⟩ := keeps m.heap secures.heap known
  exact ⟨rfl, secures.ofHeap heap grows, grows, fun _ _ => trivial⟩

theorem modifySite (f : Site → Site) : Secure R n (fun _ _ => True) fun _ => Run.modifySite f :=
  modify (fun _ => rfl) (fun _ => rfl) (fun _ => rfl) fun _ => rfl

theorem modifyControl (f : Control → Control) :
    Secure R n (fun _ _ => True) fun _ => Run.modifyControl f :=
  modify (fun _ => rfl) (fun _ => rfl) (fun _ => rfl) fun _ => rfl

theorem modifyErr (f : ErrRecord → ErrRecord) :
    Secure R n (fun _ _ => True) fun _ => Members.modifyErr f :=
  modify (fun _ => rfl) (fun _ => rfl) (fun _ => rfl) fun _ => rfl

end Secure

def Machine.aside (m : Machine) (R : Reserve A) (v : Value) : Reserve A :=
  Heap.reserve R m.heap (m.copied v).heap

section

variable {m : Machine} {v : Value} (secures : m.Secures R) (usable : v.Usable R m.cells)

include secures usable

theorem Machine.Secures.extends_aside : R.Extends (m.aside R v) :=
  secures.heap.extends_reserve (secures.heap.copied usable).builds

theorem Machine.Secures.owned_aside : (m.heap.deepCopy v).2.Owned R (m.aside R v) :=
  secures.heap.owned_reserve (secures.heap.copied usable).within

theorem Machine.Secures.copied : (m.copied v).Secures (m.aside R v) := by
  have builds := (secures.heap.copied usable).builds
  refine ⟨secures.heap.reserve builds, ?_, fun v member => ?_, secures.natives⟩
  · exact secures.scopes.imp fun _ usable => usable.reserve builds.size
  · exact (secures.withStack v member).reserve builds.size

end

theorem Secure.setPath (more : R.Extends R') {cell : Nat} {v : Value}
    (usable : (Value.array cell).Usable R' n) (path : List Int64) (owned : v.Owned R R') :
    (custody A).Delivers R R' n fun _ => Run.onHeap (·.setPath cell path v) := by
  intro m secures _
  have size : m.cells ≤ (m.heap.setPath cell path v).1.arrays.size :=
    Nat.le_of_eq (m.heap.size_setPath cell path v).symm
  exact ⟨rfl, (secures.release more).ofHeap (secures.heap.setPath more usable.2 path owned) size,
    size, fun _ _ => trivial⟩

theorem Secure.deepCopy {v : Value} (usable : v.Usable R n) :
    Secure R n (Value.Usable R) fun _ => Run.deepCopy v := by
  refine Secure.onHeap fun h secures known => ?_
  have copied := secures.copied (usable.mono known)
  exact ⟨secures.builds copied.builds, copied.builds.size, secures.usable_of_within copied.within⟩

end ServerScript
