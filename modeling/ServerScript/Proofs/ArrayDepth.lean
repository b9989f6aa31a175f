import ServerScript.Host.Contents
import ServerScript.Proofs.ArrayWriting

/-! Operations that follow nested arrays. Each of them takes a bound on the depth; where arrays are
nested less deep, the bound is never reached, and a larger one makes no difference. In a store
without cycles this is so for the bound that is used, so the operations end by themselves. -/
namespace ServerScript

theorem foldl_congr_of_invariant {f g : σ → α → σ} {I : σ → Prop} {items : List α} {s : σ}
    (same : ∀ s a, a ∈ items → I s → f s a = g s a) (keeps : ∀ s a, a ∈ items → I s → I (g s a))
    (start : I s) : items.foldl f s = items.foldl g s := by
  induction items generalizing s with
  | nil => rfl
  | cons a rest ih =>
    rw [List.foldl_cons, List.foldl_cons, same s a List.mem_cons_self start]
    exact ih (fun s b member => same s b (List.mem_cons_of_mem a member))
      (fun s b member => keeps s b (List.mem_cons_of_mem a member))
      (keeps s a List.mem_cons_self start)

theorem foldlM_congr_of_invariant {f g : σ → α → Except ε σ} {I : σ → Prop} {items : List α} {s : σ}
    (same : ∀ s a, a ∈ items → I s → f s a = g s a)
    (keeps : ∀ s a s', a ∈ items → I s → g s a = .ok s' → I s') (start : I s) :
    items.foldlM f s = items.foldlM g s := by
  induction items generalizing s with
  | nil => rfl
  | cons a rest ih =>
    rw [List.foldlM_cons, List.foldlM_cons, same s a List.mem_cons_self start]
    cases first : g s a with
    | error e => rfl
    | ok t =>
      exact ih (fun s b member => same s b (List.mem_cons_of_mem a member))
        (fun s b s' member => keeps s b s' (List.mem_cons_of_mem a member))
        (keeps s a t List.mem_cons_self start first)

namespace Heap

variable {h g : Heap} {a : ArrayCell} {v : Value} {depth k : Nat}

def NestsItems (h : Heap) (depth : Nat) (a : ArrayCell) : Prop :=
  ∀ v ∈ a.items, h.NestsWithin depth v

theorem NestsItems.inner {c : Nat} {row : ArrayCell} (nests : h.NestsItems (depth + 1) a)
    (member : .array c ∈ a.items) (found : h.array? c = some row) : h.NestsItems depth row :=
  nests _ member c row rfl found

theorem NestsItems.none {c : Nat} (nests : h.NestsItems 0 a) (member : .array c ∈ a.items) :
    h.array? c = none := nests _ member c rfl

theorem flattenCell_of_nests (nests : h.NestsItems depth a) (le : depth ≤ k) :
    h.flattenCell (k + 1) a = h.flattenCell (depth + 1) a := by
  induction depth generalizing a k with
  | zero =>
    refine List.flatMap_congr fun v member => ?_
    cases v with
    | array c => simp [nests.none (Array.mem_toList_iff.mp member)]
    | _ => rfl
  | succ depth ih =>
    obtain ⟨k, rfl⟩ := Nat.exists_eq_add_of_le' (Nat.le_trans (Nat.le_add_left 1 depth) le)
    refine List.flatMap_congr fun v member => ?_
    cases v with
    | array c =>
      dsimp only
      cases found : h.array? c with
      | none => rfl
      | some row =>
        exact ih (nests.inner (Array.mem_toList_iff.mp member) found) (Nat.le_of_succ_le_succ le)
    | _ => rfl

theorem dimensionsOf_of_nests (nests : h.NestsItems depth a) (le : depth ≤ k) :
    h.dimensionsOf (k + 1) a = h.dimensionsOf (depth + 1) a := by
  induction depth generalizing a k with
  | zero =>
    rw [dimensionsOf, dimensionsOf]
    split
    · rename_i c first
      rw [nests.none (Array.mem_of_getElem? first)]
    · rfl
  | succ depth ih =>
    obtain ⟨k, rfl⟩ := Nat.exists_eq_add_of_le' (Nat.le_trans (Nat.le_add_left 1 depth) le)
    rw [dimensionsOf, dimensionsOf]
    split
    · rename_i c first
      cases found : h.array? c with
      | none => rfl
      | some row =>
        dsimp only
        rw [ih (nests.inner (Array.mem_of_getElem? first) found) (Nat.le_of_succ_le_succ le)]
    · rfl

theorem one_le_dimensionsOf (h : Heap) (depth : Nat) (a : ArrayCell) :
    1 ≤ h.dimensionsOf depth a := by
  cases depth with
  | zero => exact Nat.le_refl 1
  | succ depth =>
    rw [dimensionsOf]
    split
    · split
      · exact Nat.le_add_right 1 _
      · exact Nat.le_refl 1
    · exact Nat.le_refl 1

theorem bounds_of_nests {n : Nat} (nests : h.NestsItems depth a)
    (large : h.dimensionsOf (depth + 1) a < n) : h.bounds a n = .ok none := by
  obtain ⟨n, rfl⟩ : ∃ k, n = k + 2 :=
    Nat.exists_eq_add_of_le' (Nat.lt_of_le_of_lt (one_le_dimensionsOf h _ a) large)
  induction depth generalizing a n with
  | zero =>
    rw [bounds]
    split
    · rename_i c first
      rw [nests.none (Array.mem_of_getElem? first)]
    · rfl
  | succ depth ih =>
    rw [bounds]
    split
    · rename_i c first
      cases found : h.array? c with
      | none => rfl
      | some row =>
        simp only [dimensionsOf, first, found] at large
        have inner : h.dimensionsOf (depth + 1) row < n + 1 := by
          rw [dimensionsOf]
          omega
        have more : 1 ≤ n := Nat.le_of_lt_succ
          (Nat.lt_of_le_of_lt (one_le_dimensionsOf h (depth + 1) row) inner)
        obtain ⟨n, rfl⟩ := Nat.exists_eq_add_of_le' more
        exact ih (nests.inner (Array.mem_of_getElem? first) found) n inner
    · rfl

theorem mapM_congr {f f' : α → Except ε β} {items : List α} (same : ∀ a ∈ items, f a = f' a) :
    items.mapM f = items.mapM f' := by
  induction items with
  | nil => rfl
  | cons a rest ih =>
    rw [List.mapM_cons, List.mapM_cons, same a List.mem_cons_self,
      ih fun b member => same b (List.mem_cons_of_mem a member)]

theorem ofValueDeep_of_nests (nests : h.NestsWithin depth v) (le : depth ≤ k) :
    SharedValue.ofValueDeep h (k + 1) v = SharedValue.ofValueDeep h (depth + 1) v := by
  induction depth generalizing v k with
  | zero =>
    cases v with
    | array c => simp [SharedValue.ofValueDeep, nests c rfl]
    | _ => rfl
  | succ depth ih =>
    obtain ⟨k, rfl⟩ := Nat.exists_eq_add_of_le' (Nat.le_trans (Nat.le_add_left 1 depth) le)
    cases v with
    | array c =>
      rw [SharedValue.ofValueDeep, SharedValue.ofValueDeep]
      cases found : h.array? c with
      | none => rfl
      | some row =>
        refine congrArg (Except.map _) (mapM_congr fun w member => ?_)
        exact ih (nests c row rfl found w (Array.mem_toList_iff.mp member))
          (Nat.le_of_succ_le_succ le)
    | _ => rfl

theorem equalDeep_of_nests (nests : h.NestsWithin depth v) (le : depth ≤ k) (w : Value) :
    h.equalDeep (k + 1) v w = h.equalDeep (depth + 1) v w := by
  induction depth generalizing v w k with
  | zero =>
    cases v with
    | array c => cases w <;> simp [equalDeep, nests c rfl]
    | _ => cases w <;> rfl
  | succ depth ih =>
    obtain ⟨k, rfl⟩ := Nat.exists_eq_add_of_le' (Nat.le_trans (Nat.le_add_left 1 depth) le)
    cases v with
    | array c =>
      cases w with
      | array d =>
        rw [equalDeep, equalDeep]
        cases found : h.array? c with
        | none => rfl
        | some x =>
          cases h.array? d with
          | none => rfl
          | some y =>
            dsimp only
            congr 2
            rw [Bool.eq_iff_iff, List.all_eq_true, List.all_eq_true]
            refine forall₂_congr fun pair member => ?_
            have inside := Array.mem_toList_iff.mp (List.of_mem_zip member).1
            rw [ih (nests c x rfl found pair.1 inside) (Nat.le_of_succ_le_succ le)]
      | _ => rfl
    | _ => cases w <;> rfl

theorem copyValue_of_nests (closed : h.Closed) (nests : h.NestsWithin depth v)
    (valid : v.Within 0 h.arrays.size) (builds : h.Builds g) (le : depth ≤ k) :
    copyValue k g v = copyValue depth g v := by
  induction depth generalizing v g k with
  | zero =>
    cases v with
    | array c =>
      obtain ⟨a, found⟩ := exists_array? valid.2
      rw [nests c rfl] at found
      cases found
    | _ => cases k <;> rfl
  | succ depth ih =>
    obtain ⟨k, rfl⟩ := Nat.exists_eq_add_of_le' (Nat.le_trans (Nat.le_add_left 1 depth) le)
    cases v with
    | array c =>
      obtain ⟨a, found⟩ := exists_array? valid.2
      rw [copyValue, copyValue, builds.array? found]
      dsimp only
      rw [← Array.foldl_toList, ← Array.foldl_toList]
      have same : ∀ {g w}, h.Builds g → w ∈ a.items.toList →
          copyValue k g w = copyValue depth g w := by
        intro g w builds member
        have member := Array.mem_toList_iff.mp member
        exact ih (nests c a rfl found w member) (closed.within found member) builds
          (Nat.le_of_succ_le_succ le)
      rw [foldl_congr_of_invariant (I := fun state : Heap × Array Value => h.Builds state.1)
        (fun state w member builds => ?_) (fun state w member builds => ?_) builds]
      · rw [same builds member]
      · have member := Array.mem_toList_iff.mp member
        exact (copied_copyValue closed depth builds (closed.within found member)
          (nests c a rfl found w member)).builds
    | _ => rfl

theorem resizePreserve_congr {j : Nat} {uppers : List Int64} (keeps : h.Keeps g)
    (valid : ∀ v ∈ a.items, v.Within 0 h.arrays.size)
    (rows : ∀ g c row, h.Keeps g → .array c ∈ a.items → h.array? c = some row →
      resizePreserve j g row (uppers.drop 1) = resizePreserve k g row (uppers.drop 1)) :
    resizePreserve (j + 1) g a uppers = resizePreserve (k + 1) g a uppers := by
  rw [resizePreserve_succ, resizePreserve_succ]
  cases done : buildArray a.lower uppers g with
  | error e => rfl
  | ok built =>
    obtain ⟨builds, places⟩ := builds_buildArray done
    have size := keeps.size
    have merged : (built.2.items.toList.zip a.items.toList).foldlM
          (mergeRow fun g row => resizePreserve j g row (uppers.drop 1)) (built.1, #[]) =
        (built.2.items.toList.zip a.items.toList).foldlM
          (mergeRow fun g row => resizePreserve k g row (uppers.drop 1)) (built.1, #[]) := by
      refine foldlM_congr_of_invariant (I := fun state : Heap × Array Value => h.Keeps state.1)
        (fun state pair member keeps => ?_) (fun state pair state' member keeps step => ?_)
        (keeps.trans builds.toKeeps)
      · obtain ⟨new, kept⟩ := pair
        have inside := Array.mem_toList_iff.mp (List.of_mem_zip member).2
        unfold mergeRow
        split
        · split
          · rfl
          · rename_i place source same _ row known
            obtain ⟨rfl, rfl⟩ := Prod.mk.inj same
            rw [keeps.old source (valid _ inside).2] at known
            dsimp only
            rw [rows state.1 source row keeps inside known]
        · rfl
      · have place := places _ (Array.mem_toList_iff.mp (List.of_mem_zip member).1)
        exact keeps_mergeRow (fun done => keeps_resizePreserve k done)
          (place.lower size) keeps step
    simp only [bind, Except.bind]
    rw [merged]

theorem resizePreserve_of_nests (closed : h.Closed) (nests : h.NestsItems depth a)
    (valid : ∀ v ∈ a.items, v.Within 0 h.arrays.size) (keeps : h.Keeps g) (uppers : List Int64)
    (le : depth ≤ k) :
    resizePreserve (k + 1) g a uppers = resizePreserve (depth + 1) g a uppers := by
  induction depth generalizing g a uppers k with
  | zero =>
    refine resizePreserve_congr keeps valid fun g c row _ member found => ?_
    rw [nests.none member] at found
    cases found
  | succ depth ih =>
    obtain ⟨k, rfl⟩ := Nat.exists_eq_add_of_le' (Nat.le_trans (Nat.le_add_left 1 depth) le)
    exact resizePreserve_congr keeps valid fun g c row keeps member found =>
      ih (nests.inner member found) (fun _ => closed.within found) keeps _
        (Nat.le_of_succ_le_succ le)

end Heap
end ServerScript
