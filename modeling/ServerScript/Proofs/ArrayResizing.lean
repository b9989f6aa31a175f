import ServerScript.Proofs.DeclaredArrays

/-! Resizing that keeps old elements. A new array is built with the new bounds, and the rows of the
old one are resized into its rows one after another. While this goes on, the rows in front are
filled from the old ones, and those behind are as they were built. -/
namespace ServerScript

open Relation

namespace Heap

variable {h g : Heap} {lower upper : Int64} {uppers : List Int64} {low depth n : Nat}
  {a b : ArrayCell}

theorem getElem?_extract_append_replicate {items : Array Value} {k : Nat} {v : Value}
    (item : (items.extract 0 n ++ (Array.replicate n Value.empty).extract
      (items.extract 0 n).size n)[k]? = some v) : v = items[k]?.getD .empty := by
  rw [Array.getElem?_append] at item
  split at item
  · rename_i front
    rw [Array.size_extract] at front
    rw [Array.getElem?_extract, if_pos (by omega), Nat.zero_add] at item
    rw [item, Option.getD_some]
  · rename_i behind
    rw [Array.size_extract] at behind
    have member := Array.mem_of_getElem? item
    obtain ⟨bound, -⟩ := Array.getElem?_eq_some_iff.mp item
    simp only [Array.size_extract, Array.size_replicate] at bound
    rw [Array.getElem?_eq_none (by omega), Option.getD_none]
    exact Array.eq_of_mem_replicate (mem_of_mem_extract member)

theorem append_extract_take (items : List Value) (n : Nat) :
    let front := (#[] : Array Value) ++ items.take n
    front ++ items.toArray.extract front.size items.toArray.size = items.toArray := by
  intro front
  have size : front.size = min n items.length := by simp [front]
  apply Array.toList_inj.mp
  rw [Array.toList_append, Array.toList_extract, size, List.extract_eq_take_drop, List.size_toArray,
    List.take_of_length_le (by rw [List.length_drop]), Array.toList_appendList, List.nil_append]
  rcases Nat.le_total n items.length with le | le
  · rw [Nat.min_eq_left le]
    exact List.take_append_drop n items
  · rw [Nat.min_eq_right le, List.drop_length, List.take_of_length_le le]
    exact List.append_nil items

theorem exists_foldlM_mergeRow {resize : Heap → ArrayCell → Except Fault (Heap × ArrayCell)}
    {news olds : List Value} {high : Nat} (acc : Array Value)
    (resizes : ∀ pair ∈ news.zip olds, ∃ c row, pair.2 = .array c ∧ h.array? c = some row ∧
      ∀ g, h.Keeps g → ∃ g' row', resize g row = .ok (g', row') ∧ g.Keeps g' ∧
        Filled h g' lower g.arrays.size uppers (some row) row')
    (laid : Laid h g lower uppers low news) (below : ∀ c, .array c ∈ news → c < high)
    (size : high ≤ g.arrays.size) (keeps : h.Keeps g) (new : h.arrays.size ≤ low) :
    ∃ h', (news.zip olds).foldlM (mergeRow resize) (g, acc) =
        .ok (h', acc ++ news.take olds.length) ∧
      (∀ c row, c < low ∨ high ≤ c → g.array? c = some row → h'.array? c = some row) ∧
      ∀ (k : Nat) v, news[k]? = some v → ∃ c row, v = .array c ∧ low ≤ c ∧
        h'.array? c = some row ∧
        Filled h h' lower low uppers ((olds[k]?.bind Value.cell?).bind h.array?) row := by
  induction news generalizing olds g low acc with
  | nil => exact ⟨g, by simp; rfl, fun _ _ _ same => same, nofun⟩
  | cons v news ih =>
    cases olds with
    | nil =>
      exact ⟨g, by simp; rfl, fun _ _ _ same => same, fun k v item => laid.getElem? item⟩
    | cons w olds =>
      obtain ⟨c, blank, rfl, above, found, -, later⟩ := laid
      obtain ⟨kept, old, rfl, known, resized⟩ := resizes (.array c, w) List.mem_cons_self
      obtain ⟨g', row, done, keeps', filled⟩ := resized g keeps
      have bound : c < high := below c List.mem_cons_self
      have step : mergeRow resize (g, acc) (.array c, .array kept) =
          .ok (g'.setArray c row, acc.push (.array c)) := by
        rw [mergeRow, keeps.array? known]
        dsimp only
        rw [done]
        rfl
      have other : ∀ d row', d ≠ c → g.array? d = some row' →
          (g'.setArray c row).array? d = some row' := fun d row' apart same =>
        (array?_setArray_of_ne g' row apart).trans (keeps'.array? same)
      have enough : high ≤ (g'.setArray c row).arrays.size := by
        rw [size_setArray]
        exact Nat.le_trans size keeps'.size
      obtain ⟨h', merged, frame, rows⟩ := ih (acc.push (.array c))
        (fun pair member => resizes pair (List.mem_cons_of_mem _ member))
        (later.kept (Nat.le_refl (c + 1)) fun d row' behind => other d row' (by omega))
        (fun d member => below d (List.mem_cons_of_mem _ member)) enough
        ((keeps.trans keeps').setArray (Nat.le_trans new above)) (by omega)
      refine ⟨h', ?_, fun d row' place same => ?_, fun k v item => ?_⟩
      · rw [List.zip_cons_cons, List.foldlM_cons, step]
        exact merged.trans (by simp)
      · exact frame d row' (by omega) (other d row' (by omega) same)
      · cases k with
        | zero =>
          obtain rfl := Option.some.inj item
          rw [size_setArray] at enough
          refine ⟨c, row, rfl, above, frame c row (.inl (Nat.lt_succ_self c))
            (array?_setArray_self g' row (by omega)), ?_⟩
          rw [List.getElem?_cons_zero, Option.bind_some, Value.cell?, Option.bind_some, known]
          refine filled.kept (by omega) fun d row' large same => ?_
          exact frame d row' (.inr (by omega))
            ((array?_setArray_of_ne g' row (by omega)).trans same)
        | succ k =>
          obtain ⟨d, row', array, behind, found', filled'⟩ := rows k v item
          exact ⟨d, row', array, by omega, found', filled'.kept (by omega) fun _ _ _ same => same⟩

theorem filled_resizePreserve (ranked : h.Ranked lower uppers.length a)
    (nests : h.NestsItems depth a) (keeps : h.Keeps g)
    (small : exceedsCapacity lower uppers = false) :
    ∃ g' b, resizePreserve (depth + 1) g a uppers = .ok (g', b) ∧
      Filled h g' lower g.arrays.size uppers (some a) b := by
  induction uppers generalizing depth a g with
  | nil => exact ranked.elim
  | cons upper rest ih =>
    rw [resizePreserve_succ, ranked.first, buildArray, if_neg (by rw [small]; exact Bool.false_ne_true)]
    cases rest with
    | nil =>
      refine ⟨_, _, rfl, rfl, ?_, fun k v item => ?_⟩
      · simp only [withDimensions, Array.size_append, Array.size_extract, Array.size_replicate]
        omega
      · simp only [withDimensions, Array.size_replicate] at item
        exact getElem?_extract_append_replicate item
    | cons next rest =>
      obtain ⟨g₁, items, built, length, kept, laid⟩ := laid_withDimensions
        (filled_withDimensions h lower (List.cons_ne_nil next rest)) g upper
      have resizes : ∀ pair ∈ items.zip a.items.toList, ∃ c row, pair.2 = .array c ∧
          h.array? c = some row ∧ ∀ g, h.Keeps g →
            ∃ g' row', resizePreserve depth g row (next :: rest) = .ok (g', row') ∧ g.Keeps g' ∧
              Filled h g' lower g.arrays.size (next :: rest) (some row) row' := by
        intro pair member
        obtain ⟨new, old⟩ := List.of_mem_zip member
        have old := Array.mem_toList_iff.mp old
        obtain ⟨c, row, same, found, inner⟩ := ranked.2 _ old
        refine ⟨c, row, same, found, fun g keeps => ?_⟩
        have small : exceedsCapacity lower (next :: rest) = false := by
          have filled : 0 < ArrayCell.span lower upper := length ▸ List.length_pos_of_mem new
          rw [exceedsCapacity, Bool.or_eq_false_iff, decide_eq_true filled, Bool.true_and] at small
          exact small.2
        cases depth with
        | zero =>
          rw [nests.none (same ▸ old)] at found
          cases found
        | succ depth =>
          obtain ⟨g', row', done, filled⟩ := ih inner (nests.inner (same ▸ old) found) keeps small
          exact ⟨g', row', done, keeps_resizePreserve _ done, filled⟩
      obtain ⟨h', merged, -, rows⟩ := exists_foldlM_mergeRow #[] resizes laid
        (fun c member => by
          obtain ⟨k, item⟩ := List.mem_iff_getElem?.mp member
          obtain ⟨d, row, same, -, found, -⟩ := laid.getElem? item
          exact Value.array.inj same ▸ lt_size_of_array? found)
        (Nat.le_refl _) (keeps.trans kept) keeps.size
      rw [built]
      dsimp only [bind, Except.bind]
      rw [if_neg (by simp), List.drop_succ_cons, List.drop_zero, merged]
      refine ⟨h', _, rfl, rfl, ?_, fun k v item => ?_⟩
      · rw [append_extract_take, ← length]
        rfl
      · rw [append_extract_take, List.getElem?_toArray] at item
        obtain ⟨c, row, array, above, found, filled⟩ := rows k v item
        refine ⟨c, row, array, above, found, ?_⟩
        rwa [Array.getElem?_toList] at filled

/-- An array with new bounds, in a store that has more cells. It has the old elements where there
were some, and empty ones in other places between the bounds; with the old bounds it is the old
array again. -/
structure Resized (h h' : Heap) (lower : Int64) (uppers : List Int64) (a b : ArrayCell) : Prop where
  keeps : h.Keeps h'
  ranked : h'.Ranked lower uppers.length b
  inside : ∀ path, path.length = uppers.length → Inside lower uppers path →
    h'.getPath b path = some ((h.getPath a path).getD .empty)
  outside : ∀ path, path.length = uppers.length → ¬Inside lower uppers path →
    h'.getPath b path = none
  same : h.Rectangular lower uppers a → h.SameContents h' a b

end Heap

/-- `ReDim Preserve` keeps the overlap. An array of any number of dimensions, whose rows may have
different lengths, can be resized to other last indices unless a dimension gets more elements than
can be asked for. What it has then at a path are the old element or an empty one between the
bounds, and nothing elsewhere. -/
theorem resizePreserve_keeps_overlap (h : Heap) (lower : Int64) (uppers : List Int64)
    (a : ArrayCell) (ranked : h.Ranked lower uppers.length a)
    (fits : ∀ upper ∈ uppers, ArrayCell.SpanFits lower upper) :
    (Heap.Oversized lower uppers →
      Heap.resizePreserve h.arrayDepth h a uppers = .error .capacityOverflow) ∧
    (¬Heap.Oversized lower uppers → ∃ h' b,
      Heap.resizePreserve h.arrayDepth h a uppers = .ok (h', b) ∧ h.Resized h' lower uppers a b) := by
  constructor
  · intro large
    rw [Heap.arrayDepth, Heap.resizePreserve_succ, ranked.first, Heap.buildArray,
      if_pos ((Heap.exceedsCapacity_iff fits).mpr large)]
    rfl
  · intro small
    have small := Bool.eq_false_iff.mpr (small ∘ (Heap.exceedsCapacity_iff fits).mp)
    obtain ⟨h', b, done, filled⟩ :=
      Heap.filled_resizePreserve ranked ranked.nestsItems (.refl h) small
    have source : ∀ old, some a = some old → h.Ranked lower uppers.length old := fun old same =>
      Option.some.inj same ▸ ranked
    exact ⟨h', b, done, {
      keeps := Heap.keeps_resizePreserve _ done
      ranked := (filled.rectangular source).ranked
      inside := fun path length => (filled.getPath source fits length).1
      outside := fun path length => (filled.getPath source fits length).2
      same := fun shape => filled.sameContents shape }⟩

theorem resizePreserve_keeps_overlap_of_ragged :
    let h : Heap := { arrays := #[⟨1, #[.integer 1, .integer 2, .integer 3]⟩, ⟨1, #[.integer 4]⟩] }
    let a : ArrayCell := ⟨1, #[.array 0, .array 1]⟩
    ∃ h' b, Heap.resizePreserve h.arrayDepth h a [3, 2] = .ok (h', b) ∧
      h.Resized h' 1 [3, 2] a b := by
  intro h a
  have ranked : h.Ranked 1 [3, 2].length a := by
    refine ⟨rfl, fun v member => ?_⟩
    rcases (by simpa [a] using member : v = .array 0 ∨ v = .array 1) with rfl | rfl
    · exact ⟨0, _, rfl, rfl, rfl, by simp [h]⟩
    · exact ⟨1, _, rfl, rfl, rfl, by simp [h]⟩
  have fits : ∀ upper ∈ [3, 2], ArrayCell.SpanFits 1 upper := by
    rw [List.forall_mem_cons, List.forall_mem_singleton]
    decide
  refine (resizePreserve_keeps_overlap h 1 [3, 2] a ranked fits).2 fun large => ?_
  exact absurd ((Heap.exceedsCapacity_iff fits).mpr large) (by decide)

/-- But not all arrays can be resized: one of 2 ^ 62 + 1 elements cannot be built. -/
theorem large_array_not_resized :
    Heap.Ranked {} 0 1 ⟨0, #[.integer 7]⟩ ∧ ArrayCell.SpanFits 0 4611686018427387904 ∧
    ¬∃ result, Heap.resizePreserve (Heap.arrayDepth {}) {} ⟨0, #[.integer 7]⟩
      [4611686018427387904] = .ok result := by
  refine ⟨⟨rfl, by simp⟩, by decide, fun ⟨result, resized⟩ => ?_⟩
  rw [Heap.arrayDepth, Heap.resizePreserve_succ, Heap.buildArray, if_pos (by decide)] at resized
  cases resized

end ServerScript
