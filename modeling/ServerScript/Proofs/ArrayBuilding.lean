import Mathlib.Data.List.Forall2
import ServerScript.Proofs.ArrayGraph

/-! Operations that build arrays. Declared arrays, copies and the arrays of shared values are made
of new cells only, each of which has elements among the new cells before it; what was in the store
stays as it was. A copy has the bounds and the elements of what it was made from, at every depth. -/
namespace ServerScript

open Relation

def Value.Within (low high : Nat) : Value → Prop
  | .array c => low ≤ c ∧ c < high
  | _ => True

theorem Value.Within.mono {low high high' : Nat} {v : Value} (within : v.Within low high)
    (le : high ≤ high') : v.Within low high' := by
  cases v with
  | array c => exact ⟨within.1, Nat.lt_of_lt_of_le within.2 le⟩
  | _ => trivial

theorem Value.Within.lower {low low' high : Nat} {v : Value} (within : v.Within low high)
    (le : low' ≤ low) : v.Within low' high := by
  cases v with
  | array c => exact ⟨Nat.le_trans le within.1, within.2⟩
  | _ => trivial

namespace Heap

/-- A store with new cells: old ones have kept their contents, and so has all that is no array. -/
structure Keeps (h h' : Heap) : Prop where
  rest : h' = { h with arrays := h'.arrays }
  size : h.arrays.size ≤ h'.arrays.size
  old : ∀ c, c < h.arrays.size → h'.array? c = h.array? c

/-- A store with new cells whose elements are among the new cells before them. -/
structure Builds (h h' : Heap) : Prop extends h.Keeps h' where
  new : ∀ c d, h.arrays.size ≤ c → h'.Element c d → h.arrays.size ≤ d ∧ d < c

variable {h h' h'' : Heap}

namespace Keeps

theorem refl (h : Heap) : h.Keeps h := ⟨rfl, Nat.le_refl _, fun _ _ => rfl⟩

theorem trans (first : h.Keeps h') (second : h'.Keeps h'') : h.Keeps h'' := by
  refine ⟨?_, Nat.le_trans first.size second.size, fun c small => ?_⟩
  · rw [second.rest, first.rest]
  · rw [second.old c (Nat.lt_of_lt_of_le small first.size), first.old c small]

theorem array? (keeps : h.Keeps h') {c : Nat} {a : ArrayCell} (found : h.array? c = some a) :
    h'.array? c = some a := by
  rw [keeps.old c (lt_size_of_array? found)]
  exact found

theorem element_of_lt (keeps : h.Keeps h') {c d : Nat} (small : c < h.arrays.size)
    (element : h'.Element c d) : h.Element c d := by
  obtain ⟨a, found, member⟩ := element
  exact ⟨a, (keeps.old c small).symm.trans found, member⟩

end Keeps

namespace Builds

theorem refl (h : Heap) : h.Builds h := by
  refine ⟨.refl h, fun c d large element => ?_⟩
  exact absurd element.lt_size (Nat.not_lt_of_le large)

theorem trans (first : h.Builds h') (second : h'.Builds h'') : h.Builds h'' := by
  refine ⟨first.toKeeps.trans second.toKeeps, fun c d large element => ?_⟩
  by_cases small : c < h'.arrays.size
  · exact first.new c d large (second.element_of_lt small element)
  · obtain ⟨low, high⟩ := second.new c d (Nat.le_of_not_lt small) element
    exact ⟨Nat.le_trans first.size low, high⟩

theorem founded (builds : h.Builds h') (founded : h.Founded) (closed : h.Closed) : h'.Founded := by
  have inside : ∀ c d, c < h.arrays.size → h'.Element c d → h.Element c d :=
    fun c d small => builds.element_of_lt small
  have outside : ∀ c d, h.arrays.size ≤ c → h'.Element c d → d < c :=
    fun c d large element => (builds.new c d large element).2
  exact founded.extend h.arrays.size inside outside closed

end Builds

theorem array?_allocArray (h : Heap) (a : ArrayCell) (c : Nat) :
    (h.allocArray a).1.array? c = if c = h.arrays.size then some a else h.array? c := by
  simp [Heap.array?, allocArray, Array.getElem?_push]

theorem size_allocArray (h : Heap) (a : ArrayCell) :
    (h.allocArray a).1.arrays.size = h.arrays.size + 1 := Array.size_push _

theorem keeps_allocArray (h : Heap) (a : ArrayCell) : h.Keeps (h.allocArray a).1 := by
  refine ⟨rfl, ?_, fun c small => ?_⟩
  · rw [size_allocArray]
    exact Nat.le_succ _
  · rw [array?_allocArray, if_neg (Nat.ne_of_lt small)]

theorem element_allocArray {a : ArrayCell} {c d : Nat} (element : (h.allocArray a).1.Element c d) :
    h.Element c d ∨ c = h.arrays.size ∧ .array d ∈ a.items := by
  obtain ⟨b, found, member⟩ := element
  rw [array?_allocArray] at found
  split at found
  · rename_i last
    obtain rfl := Option.some.inj found
    exact .inr ⟨last, member⟩
  · exact .inl ⟨b, found, member⟩

theorem Builds.allocArray (builds : h.Builds h') {a : ArrayCell}
    (items : ∀ v ∈ a.items, v.Within h.arrays.size h'.arrays.size) :
    h.Builds (h'.allocArray a).1 := by
  refine ⟨builds.toKeeps.trans (keeps_allocArray h' a), fun c d large element => ?_⟩
  rcases element_allocArray element with element | ⟨rfl, member⟩
  · exact builds.new c d large element
  · exact items _ member

theorem within_new (builds : h.Builds h') (a : ArrayCell) :
    (Value.array (h'.allocArray a).2).Within h.arrays.size (h'.allocArray a).1.arrays.size := by
  rw [size_allocArray]
  exact ⟨builds.size, Nat.lt_succ_self _⟩

theorem forall_mem_push {P : α → Prop} {items : Array α} {a : α} (before : ∀ b ∈ items, P b)
    (last : P a) : ∀ b ∈ items.push a, P b := by
  intro b member
  rcases Array.mem_push.mp member with member | rfl
  · exact before b member
  · exact last

theorem builds_buildItems {build : Heap → Heap × Value}
    (one : ∀ g, g.Builds (build g).1 ∧
      (build g).2.Within g.arrays.size (build g).1.arrays.size) (n : Nat)
    {acc : Array Value} (builds : h.Builds h')
    (before : ∀ v ∈ acc, v.Within h.arrays.size h'.arrays.size) :
    h.Builds (buildItems build n h' acc).1 ∧ ∀ v ∈ (buildItems build n h' acc).2,
      v.Within h.arrays.size (buildItems build n h' acc).1.arrays.size := by
  induction n generalizing h' acc with
  | zero => exact ⟨builds, before⟩
  | succ n ih =>
    obtain ⟨built, fresh⟩ := one h'
    refine ih (builds.trans built) (forall_mem_push (fun v member => ?_) (fresh.lower builds.size))
    exact (before v member).mono built.size

theorem builds_withDimensions (lower : Int64) (uppers : List Int64) (h : Heap) :
    h.Builds (withDimensions lower uppers h).1 ∧ ∀ v ∈ (withDimensions lower uppers h).2.items,
      v.Within h.arrays.size (withDimensions lower uppers h).1.arrays.size := by
  induction uppers generalizing h with
  | nil => exact ⟨.refl h, fun v member => absurd member (Array.not_mem_empty v)⟩
  | cons upper rest ih =>
    cases rest with
    | nil =>
      refine ⟨.refl h, fun v member => ?_⟩
      rw [Array.eq_of_mem_replicate member]
      trivial
    | cons next rest =>
      refine builds_buildItems (fun g => ?_) _ (.refl h) (by simp)
      obtain ⟨built, items⟩ := ih g
      exact ⟨built.allocArray items, within_new built _⟩

theorem builds_buildArray {lower : Int64} {uppers : List Int64} {result : Heap × ArrayCell}
    (built : buildArray lower uppers h = .ok result) :
    h.Builds result.1 ∧ ∀ v ∈ result.2.items, v.Within h.arrays.size result.1.arrays.size := by
  rw [buildArray] at built
  split at built
  · cases built
  · obtain rfl := Except.ok.inj built
    exact builds_withDimensions lower uppers h

mutual

theorem builds_toValue (h : Heap) : ∀ v : SharedValue,
    h.Builds (SharedValue.toValue h v).1 ∧
      (SharedValue.toValue h v).2.Within h.arrays.size (SharedValue.toValue h v).1.arrays.size
  | .empty | .null | .bool _ | .integer _ | .float _ | .string _ => by
    simp only [SharedValue.toValue]
    exact ⟨.refl h, trivial⟩
  | .array lower items => by
    simp only [SharedValue.toValue]
    obtain ⟨built, values⟩ := builds_toValues (.refl h) items #[] (by simp)
    exact ⟨built.allocArray values, within_new built _⟩

theorem builds_toValues {h h' : Heap} (builds : h.Builds h') :
    ∀ (items : List SharedValue) (acc : Array Value),
    (∀ v ∈ acc, v.Within h.arrays.size h'.arrays.size) →
    h.Builds (SharedValue.toValues h' items acc).1 ∧
      ∀ v ∈ (SharedValue.toValues h' items acc).2,
        v.Within h.arrays.size (SharedValue.toValues h' items acc).1.arrays.size
  | [], acc, before => by
    simp only [SharedValue.toValues]
    exact ⟨builds, before⟩
  | item :: rest, acc, before => by
    simp only [SharedValue.toValues]
    obtain ⟨built, fresh⟩ := builds_toValue h' item
    exact builds_toValues (builds.trans built) rest _ (forall_mem_push
      (fun v member => (before v member).mono built.size) (fresh.lower builds.size))

end

/-- A value of one store and a value of another one have the same bounds and elements at every
depth. -/
inductive Mirrors (h h' : Heap) : Value → Value → Prop where
  | array {c c' a a'} (source : h.array? c = some a) (copy : h'.array? c' = some a')
    (lower : a'.lower = a.lower) (size : a'.items.size = a.items.size)
    (items : ∀ (i : Nat) v v', a.items[i]? = some v → a'.items[i]? = some v' → Mirrors h h' v v') :
    Mirrors h h' (.array c) (.array c')
  | other {v} (none : ∀ c, v ≠ .array c) : Mirrors h h' v v

theorem Mirrors.kept {v w : Value} (mirrors : h.Mirrors h' v w)
    (same : ∀ c x a, w = .array c → ReflTransGen h'.Element c x → h'.array? x = some a →
      h''.array? x = some a) : h.Mirrors h'' v w := by
  induction mirrors with
  | @array c c' a a' source copy lower size items ih =>
    refine .array source (same c' c' a' rfl .refl copy) lower size fun i v v' first second => ?_
    refine ih i v v' first second fun d x b inner reaches found => ?_
    have element : h'.Element c' d := ⟨a', copy, inner ▸ Array.mem_of_getElem? second⟩
    exact same c' x b rfl (.head element reaches) found
  | other none => exact .other none

theorem Mirrors.keeps {v w : Value} (mirrors : h.Mirrors h' v w) (keeps : h'.Keeps h'') :
    h.Mirrors h'' v w := mirrors.kept fun _ _ _ _ _ found => keeps.array? found

theorem getElem?_of_forall₂ {P : α → β → Prop} {as : List α} {bs : List β}
    (all : List.Forall₂ P as bs) {i : Nat} {a : α} {b : β} (first : as[i]? = some a)
    (second : bs[i]? = some b) : P a b := by
  induction all generalizing i with
  | nil => cases first
  | cons head _ ih =>
    cases i with
    | zero =>
      obtain rfl := Option.some.inj first
      obtain rfl := Option.some.inj second
      exact head
    | succ i => exact ih first second

/-- What a copy in front of new cells is: more new cells, and a mirror image made of them. -/
structure Copied (h g g' : Heap) (v w : Value) : Prop where
  builds : h.Builds g'
  keeps : g.Keeps g'
  within : w.Within h.arrays.size g'.arrays.size
  mirrors : h.Mirrors g' v w

theorem copied_items {copy : Heap → Value → Heap × Value} {items : List Value}
    (one : ∀ g, h.Builds g → ∀ v ∈ items, h.Copied g (copy g v).1 v (copy g v).2)
    {g : Heap} (builds : h.Builds g) (acc : Array Value) :
    let result := items.foldl (fun state v => ((copy state.1 v).1, state.2.push (copy state.1 v).2))
      (g, acc)
    ∃ copies : List Value, result.2 = acc ++ copies ∧ h.Builds result.1 ∧ g.Keeps result.1 ∧
      (∀ w ∈ copies, w.Within h.arrays.size result.1.arrays.size) ∧
      List.Forall₂ (h.Mirrors result.1) items copies := by
  induction items generalizing g acc with
  | nil => exact ⟨[], by simp, builds, .refl g, nofun, .nil⟩
  | cons v rest ih =>
    have first := one g builds v List.mem_cons_self
    obtain ⟨copies, same, built, kept, within, mirrors⟩ :=
      ih (fun g builds w member => one g builds w (List.mem_cons_of_mem v member)) first.builds
        (acc.push (copy g v).2)
    refine ⟨(copy g v).2 :: copies, ?_, built, first.keeps.trans kept, ?_, ?_⟩
    · rw [List.foldl_cons, same]
      simp
    · exact List.forall_mem_cons.mpr ⟨first.within.mono kept.size, within⟩
    · exact .cons (first.mirrors.keeps kept) mirrors

theorem copied_self {g : Heap} {v : Value} (builds : h.Builds g) (none : ∀ c, v ≠ .array c) :
    h.Copied g g v v := by
  refine ⟨builds, .refl g, ?_, .other none⟩
  cases v with
  | array c => exact absurd rfl (none c)
  | _ => trivial

theorem Closed.within {c : Nat} {a : ArrayCell} (closed : h.Closed) (found : h.array? c = some a)
    {v : Value} (member : v ∈ a.items) : v.Within 0 h.arrays.size := by
  cases v with
  | array d => exact ⟨Nat.zero_le d, closed c d ⟨a, found, member⟩⟩
  | _ => trivial

/-- A copy to at least the depth of nesting. New cells may have been built before. -/
theorem copied_copyValue (closed : h.Closed) (depth : Nat) {g : Heap} {v : Value}
    (builds : h.Builds g) (valid : v.Within 0 h.arrays.size) (nests : h.NestsWithin depth v) :
    h.Copied g (copyValue depth g v).1 v (copyValue depth g v).2 := by
  induction depth generalizing g v with
  | zero =>
    cases v with
    | array c =>
      obtain ⟨a, found⟩ := exists_array? valid.2
      rw [nests c rfl] at found
      cases found
    | _ => exact copied_self builds nofun
  | succ depth ih =>
    cases v with
    | array c =>
      obtain ⟨a, found⟩ := exists_array? valid.2
      have one : ∀ g, h.Builds g → ∀ v ∈ a.items.toList,
          h.Copied g (copyValue depth g v).1 v (copyValue depth g v).2 := by
        intro g builds v member
        have member := Array.mem_toList_iff.mp member
        exact ih builds (closed.within found member) (nests c a rfl found v member)
      obtain ⟨copies, same, built, kept, within, mirrors⟩ := copied_items one builds #[]
      rw [copyValue, builds.array? found]
      dsimp only
      rw [← Array.foldl_toList, same]
      have items : ((#[] : Array Value) ++ copies).toList = copies := by simp
      refine ⟨built.allocArray fun w member => ?_, kept.trans (keeps_allocArray _ _),
        within_new built _, ?_⟩
      · exact within w (items ▸ Array.mem_toList_iff.mpr member)
      · refine .array found (array?_allocArray _ _ _ |>.trans (if_pos rfl)) rfl ?_ fun i v w => ?_
        · simpa using mirrors.length_eq.symm
        · rw [← Array.getElem?_toList, ← Array.getElem?_toList, items]
          intro first second
          exact (getElem?_of_forall₂ mirrors first second).keeps (keeps_allocArray _ _)
    | _ => exact copied_self builds nofun

theorem copied_deepCopy (closed : h.Closed) (acyclic : h.Acyclic) {g : Heap} {v : Value}
    (builds : h.Builds g) (valid : v.Within 0 h.arrays.size) :
    h.Copied g (g.deepCopy v).1 v (g.deepCopy v).2 := by
  cases v with
  | array c =>
    exact copied_copyValue closed _ builds valid
      ((acyclic.nestsWithin _).of_le (Nat.le_succ_of_le builds.size))
  | _ => exact copied_self builds nofun

end Heap
end ServerScript
