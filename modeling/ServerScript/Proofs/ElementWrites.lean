import ServerScript.Proofs.DeclaredArrays

/-! Writes of elements through nested arrays. A write replaces one element of the row that its path
leads to. If no row is shared, only one path leads there: what is read at a path that ends elsewhere
is the same element of the same row, and an array that is read there does not have the row in it. -/
namespace ServerScript

open Relation

namespace Heap

variable {h : Heap} {cell c t : Nat} {a : ArrayCell} {i j : Int64} {k : Nat}
  {path q : List Int64}

namespace Unshared

variable (unshared : h.Unshared cell) (leads : h.rowAt cell path = some t)
  (found : h.array? t = some a) (place : a.offset? i = some k) (v : Value)

include unshared leads found place

theorem get?_setArray (there : h.rowAt cell q = some c) (beyond : ¬path ++ [i] <+: q ++ [j]) :
    ((h.setArray t (a.put k v)).array? c).bind (·.get? j) = (h.array? c).bind (·.get? j) := by
  by_cases same : c = t
  · subst same
    obtain rfl := unshared.rowAt_inj leads there
    have other : j ≠ i := by
      rintro rfl
      exact beyond List.prefix_rfl
    rw [array?_setArray_self _ _ (lt_size_of_array? found), found, Option.bind_some,
      Option.bind_some, ArrayCell.get?_put_of_ne v place other]
  · rw [array?_setArray_of_ne _ _ same]

theorem rowAt_setArray (beyond : ¬path ++ [i] <+: q) :
    (h.setArray t (a.put k v)).rowAt cell q = h.rowAt cell q := by
  induction q using List.reverseRecOn with
  | nil => rfl
  | append_singleton q j ih =>
    rw [rowAt_concat, rowAt_concat,
      ih fun before => beyond (before.trans (List.prefix_append q [j]))]
    refine Option.bind_congr fun c there => ?_
    rw [row?, row?, unshared.get?_setArray leads found place v there beyond]

theorem readAt_setArray (beyond : ¬path ++ [i] <+: q) :
    (h.setArray t (a.put k v)).readAt cell q = h.readAt cell q := by
  rcases List.eq_nil_or_concat q with rfl | ⟨q, j, rfl⟩
  · rw [readAt_nil, readAt_nil]
  · rw [List.concat_eq_append] at beyond ⊢
    rw [readAt_concat, readAt_concat, unshared.rowAt_setArray leads found place v
      fun before => beyond (before.trans (List.prefix_append q [j]))]
    exact Option.bind_congr fun c there =>
      unshared.get?_setArray leads found place v there beyond

end Unshared

/-- A store after a write at a path that starts at an array: the value is read at the path, with all
that it contains as it was, and what is read at other paths is as it was, unless it contains the
element that was written or lies in it. -/
structure WrittenAt (h h' : Heap) (cell : Nat) (path : List Int64) (v : Value) : Prop where
  here : h'.readAt cell path = some v
  value : ∀ c d, v = .array c → ReflTransGen h.Element c d → h'.array? d = h.array? d
  elsewhere : ∀ q, ¬q <+: path → ¬path <+: q → h'.readAt cell q = h.readAt cell q ∧
    ∀ c d, h.readAt cell q = some (.array c) → ReflTransGen h.Element c d → h'.array? d = h.array? d

theorem Unshared.writtenAt (unshared : h.Unshared cell) (leads : h.rowAt cell path = some t)
    (found : h.array? t = some a) (place : a.offset? i = some k) {v : Value}
    (apart : ∀ c, v = .array c → ¬h.Shares cell c) :
    h.WrittenAt (h.setArray t (a.put k v)) cell (path ++ [i]) v where
  here := by
    have beyond : ¬path ++ [i] <+: path := fun before => by
      have length := before.length_le
      rw [List.length_append, List.length_singleton] at length
      omega
    rw [readAt_concat, unshared.rowAt_setArray leads found place v beyond, leads,
      Option.bind_some, array?_setArray_self _ _ (lt_size_of_array? found), Option.bind_some,
      get?_put place]
  value c d same inside := by
    refine array?_setArray_of_ne _ _ ?_
    rintro rfl
    exact apart c same ⟨d, reaches_of_rowAt leads, inside⟩
  elsewhere q shorter longer := by
    refine ⟨unshared.readAt_setArray leads found place v longer, fun c d row inside => ?_⟩
    refine array?_setArray_of_ne _ _ ?_
    rintro rfl
    have inner := unshared.prefix_of_reaches (rowAt_of_readAt row) leads inside
    exact shorter (inner.trans (List.prefix_append path [i]))

end Heap

/-- Element writes hit one cell. If no row of an array is shared, a write at a path, of any length
and with any indices, succeeds exactly where something can be read. It then puts the value there
and changes nothing else that is read from the array, rows on the way to the element apart. A write
that fails changes nothing at all. -/
theorem element_write_hits_one_cell (h : Heap) (cell : Nat) (path : List Int64) (v : Value)
    (unshared : h.Unshared cell) (apart : ∀ c, v = .array c → ¬h.Shares cell c) :
    ((h.setPath cell path v).2 = true ↔ (h.readAt cell path).isSome) ∧
    ((h.setPath cell path v).2 = true → h.WrittenAt (h.setPath cell path v).1 cell path v) ∧
    ((h.setPath cell path v).2 = false → (h.setPath cell path v).1 = h) := by
  obtain ⟨done, none⟩ | ⟨front, i, t, a, k, rfl, leads, found, place, done⟩ :=
    h.setPath_spec cell path v
  · rw [done, none]
    exact ⟨by simp, nofun, fun _ => rfl⟩
  · have read : (h.readAt cell (front ++ [i])).isSome := by
      rw [Heap.readAt_concat, leads, Option.bind_some, found, Option.bind_some,
        ArrayCell.isSome_get?, place]
      rfl
    have written := unshared.writtenAt leads found place apart
    rw [done]
    exact ⟨⟨fun _ => read, fun _ => rfl⟩, fun _ => written, nofun⟩

theorem element_write_hits_one_cell_of_matrix :
    let before := (({} : Heap).allocArray ⟨0, #[.integer 1]⟩).1
    let built := Heap.withDimensions 1 [2, 2] before
    let store := (built.1.allocArray built.2).1
    let cell := (built.1.allocArray built.2).2
    store.Unshared cell ∧ ¬store.Shares cell 0 ∧
      (store.setPath cell [1, 2] (.array 0)).2 = true ∧
      store.WrittenAt (store.setPath cell [1, 2] (.array 0)).1 cell [1, 2] (.array 0) := by
  intro before built store cell
  have pending : Heap.Pending before built.1 built.2.items :=
    Heap.pending_withDimensions 1 [2, 2] before
  have closed : before.Closed := by
    rintro c d ⟨a, found, member⟩
    obtain rfl : c = 0 := Nat.lt_one_iff.mp (Heap.lt_size_of_array? found)
    obtain rfl := Option.some.inj found
    exact nomatch Array.mem_singleton.mp member
  have apart : ¬store.Shares cell 0 := fun shares =>
    (pending.builds.allocArray pending.within).not_shares closed (by decide) pending.builds.size
      shares.symm
  obtain ⟨succeeds, written, -⟩ := element_write_hits_one_cell store cell [1, 2] (.array 0)
    pending.unshared fun c same => Value.array.inj same ▸ apart
  have done := succeeds.mpr (by decide)
  exact ⟨pending.unshared, apart, done, written done⟩

end ServerScript
