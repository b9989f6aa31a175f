import ServerScript.Host.Basic
import ServerScript.Proofs.ArrayDepth
import ServerScript.Proofs.SecureSteps

/-! Arrays are finite trees. A state is grounded if its references lead to cells that exist and no
array contains itself. Every state that the run of a program goes through is then grounded too, so
what follows nested arrays comes to an end by itself: the bound on the depth that it is given is
never what ends it. -/
namespace ServerScript

open Relation

/-- A state whose arrays are finite trees. All that it holds exists, its dictionaries find their
entries, and functions from outside make up no arrays. -/
structure Machine.Grounded (m : Machine) : Prop where
  closed : m.heap.Closed
  acyclic : m.heap.Acyclic
  objects : m.heap.AllObjects (Value.Within 0 m.cells)
  scopes : m.scopes.All (Value.Within 0 m.cells)
  withStack : ∀ v ∈ m.withStack, v.Within 0 m.cells
  natives : ∀ f ∈ m.natives, f.Honest

/-- What follows the arrays inside of an array comes to its end: nesting is less deep than the
bound, a larger bound makes no difference, and a dimension beyond the last one has no bounds. -/
structure Heap.Traverses (h : Heap) (c : Nat) (a : ArrayCell) : Prop where
  nests : h.NestsWithin h.arrays.size (.array c)
  deepCopy : ∀ depth, h.arrayDepth ≤ depth →
    Heap.copyValue depth h (.array c) = h.deepCopy (.array c)
  flatten : ∀ depth, h.arrayDepth ≤ depth → h.flattenCell depth a = h.flatten a
  dimensions : ∀ depth, h.arrayDepth ≤ depth → h.dimensionsOf depth a = h.dimensions a
  bounds : ∀ n, h.dimensions a < n → h.bounds a n = .ok none
  resizePreserve : ∀ depth uppers, h.arrayDepth ≤ depth →
    Heap.resizePreserve depth h a uppers = Heap.resizePreserve h.arrayDepth h a uppers
  ofValue : ∀ depth, h.arrayDepth ≤ depth →
    SharedValue.ofValueDeep h depth (.array c) = SharedValue.ofValue h (.array c)
  equal : ∀ depth v, h.arrayDepth ≤ depth → h.equalDeep depth (.array c) v = h.equal (.array c) v

theorem Heap.Acyclic.traverses {h : Heap} (acyclic : h.Acyclic) (closed : h.Closed) {c : Nat}
    {a : ArrayCell} (found : h.array? c = some a) : h.Traverses c a := by
  have nests : ∀ v, h.NestsWithin h.arrays.size v := acyclic.nestsWithin
  have items : h.NestsItems h.arrays.size a := fun v _ => nests v
  have valid : ∀ v ∈ a.items, v.Within 0 h.arrays.size := fun _ => closed.within found
  -- A bound is one more than the depth that is left for the elements.
  have pred : ∀ {depth}, h.arrayDepth ≤ depth → ∃ k, depth = k + 1 ∧ h.arrays.size ≤ k := by
    intro depth le
    obtain ⟨k, rfl⟩ := Nat.exists_eq_add_of_le' le
    exact ⟨k + h.arrays.size, rfl, Nat.le_add_left _ _⟩
  have within : (Value.array c).Within 0 h.arrays.size := ⟨Nat.zero_le c, lt_size_of_array? found⟩
  refine ⟨nests _, fun depth le => ?_, fun depth le => ?_, fun depth le => ?_, fun n large => ?_,
    fun depth uppers le => ?_, fun depth le => ?_, fun depth v le => ?_⟩
  · have enough := Nat.le_trans (Nat.le_succ h.arrays.size) le
    exact (copyValue_of_nests closed (nests _) within (.refl h) enough).trans
      (copyValue_of_nests closed (nests _) within (.refl h) (Nat.le_succ _)).symm
  · obtain ⟨k, rfl, enough⟩ := pred le
    exact flattenCell_of_nests items enough
  · obtain ⟨k, rfl, enough⟩ := pred le
    exact dimensionsOf_of_nests items enough
  · exact bounds_of_nests items large
  · obtain ⟨k, rfl, enough⟩ := pred le
    exact resizePreserve_of_nests closed items valid (.refl h) uppers enough
  · obtain ⟨k, rfl, enough⟩ := pred le
    exact ofValueDeep_of_nests (nests _) enough
  · obtain ⟨k, rfl, enough⟩ := pred le
    exact equalDeep_of_nests (nests _) enough v

variable {A : Nat → Nat → Prop} {R : Reserve A} {m m' : Machine} {n : Nat} {program : Block}

theorem Value.Within.usable {v : Value} (within : v.Within 0 n) :
    v.Usable (Reserve.nothing A) n := by
  cases v with
  | array c => exact ⟨within.2, rfl⟩
  | _ => trivial

namespace Machine

theorem Secures.grounded (secures : m.Secures R) : m.Grounded where
  closed := secures.heap.closed
  acyclic := secures.heap.founded.acyclic
  objects := secures.heap.objects.imp fun _ => Heap.within_of_usable
  scopes := secures.scopes.imp fun _ => Heap.within_of_usable
  withStack v member := Heap.within_of_usable (secures.withStack v member)
  natives := secures.natives

theorem Grounded.secures (grounded : m.Grounded) (apart : m.heap.KeepsApart A) :
    m.Secures (Reserve.nothing A) where
  heap := ⟨nofun, fun _ _ found _ _ member => (grounded.closed.within found member).usable,
    grounded.closed, grounded.acyclic.founded grounded.closed, apart,
    grounded.objects.imp fun _ => Value.Within.usable⟩
  scopes := grounded.scopes.imp fun _ => Value.Within.usable
  withStack v member := (grounded.withStack v member).usable
  natives := grounded.natives

theorem Grounded.secures_self (grounded : m.Grounded) :
    m.Secures (Reserve.nothing fun _ _ => False) := grounded.secures nofun

end Machine

namespace Script

/-- The states that the run of a program goes through after its declarations. -/
def Visits (n : Nat) (program : Block) (m : Machine) : Machine → Prop :=
  Stage.Passes ⟨n, [], .block program, ((Interpreter.hoist program).exec m).2⟩

theorem visits_runWithin (n : Nat) (program : Block) (m : Machine) :
    Visits n program m ((runWithin n program).exec m).2 := by
  refine ⟨_, .refl, ?_⟩
  rw [runWithin]
  cases done : ((Interpreter.hoist program).exec m).1 with
  | ok u => exact .inr (by rw [Run.exec_bind_ok (Prod.ext done rfl)]; rfl)
  | error s => exact .inl (by rw [Run.exec_bind_error (Prod.ext done rfl)])

theorem Visits.grounded (visits : Visits n program m m') (grounded : m.Grounded) :
    m'.Grounded := by
  have start := ValueRealm.Upkeep.Sound.hoist (custody_upkeep _) program m grounded.secures_self
    (Nat.le_refl _)
  obtain ⟨R, secures⟩ := visits.fits (custody_upkeep _) ⟨_, _, .refl _, start.state, trivial⟩
  exact secures.grounded

end Script

theorem Host.grounded_machine (host : Host) (exchange : Exchange)
    (honest : ∀ f ∈ host.natives, f.Honest) : (host.machine exchange).Grounded := by
  have none : ∀ c d, ¬(host.machine exchange).heap.Element c d := by
    rintro c d ⟨a, found, -⟩
    cases found
  refine ⟨fun c d element => absurd element (none c d), fun c cycle => ?_,
    ⟨fun c content found => ?_, fun c d found => ?_⟩,
    ⟨nofun, fun e member => ?_, fun e member => ?_⟩, nofun, honest⟩
  · obtain ⟨d, first, -⟩ := TransGen.head'_iff.mp cycle
    exact none c d first
  · cases found
  · cases found
  · obtain ⟨entry, -, rfl⟩ := List.mem_map.mp member
    trivial
  · exact (simple_builtinConstants e member).within

/-- Arrays are never cyclic. In every state that the run of any program goes through, its last one
included, from a state whose arrays are finite trees, no array contains itself, and all that
follows the arrays inside of an array comes to an end. -/
theorem arrays_never_cyclic (grounded : m.Grounded) (n : Nat) (program : Block) :
    Script.Visits n program m ((Script.runWithin n program).exec m).2 ∧
      ∀ m', Script.Visits n program m m' → m'.Grounded ∧
        (∀ c, ¬TransGen m'.heap.Element c c) ∧
        ∀ c a, m'.heap.array? c = some a → m'.heap.Traverses c a := by
  refine ⟨Script.visits_runWithin n program m, fun m' visits => ?_⟩
  have after := visits.grounded grounded
  exact ⟨after, after.acyclic, fun c a => after.acyclic.traverses after.closed⟩

namespace SelfAssignment

def a : Name := ⟨"a"⟩

def start : Machine := ({} : Host).machine ⟨{}, {}, {}⟩

/-- `Dim a(1)`, then `a(1) = a`. -/
def block : Block :=
  [⟨.dim [⟨a, some [.literal (.integer 1)]⟩], {}⟩,
    ⟨.assign (.call (.ident a) [.literal (.integer 1)]) (.ident a) false, {}⟩]

end SelfAssignment

theorem self_assignment_closes_no_cycle :
    SelfAssignment.start.Grounded ∧
      let after := ((Script.runWithin 5 SelfAssignment.block).exec SelfAssignment.start).2
      (after.heap.array? 0).map (·.items) = some #[.empty, .array 1] ∧ after.heap.Acyclic := by
  have grounded : SelfAssignment.start.Grounded := Host.grounded_machine _ _ nofun
  obtain ⟨visits, stay⟩ := arrays_never_cyclic grounded 5 SelfAssignment.block
  exact ⟨grounded, rfl, (stay _ visits).2.1⟩

end ServerScript
