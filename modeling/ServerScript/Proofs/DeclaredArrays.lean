import ServerScript.Proofs.ArrayShapes

/-! Arrays that are declared with their bounds. Rows are built one after another, each one in front
of the cells of the next. They are filled with nothing, and none of them lies in two places. -/
namespace ServerScript

open Relation

namespace Heap

variable {h g g' : Heap} {lower upper : Int64} {uppers : List Int64} {low low' : Nat}
  {items : List Value} {a : ArrayCell}

/-- New rows in a store, with their own rows: those of each one lie behind the row before. -/
def Laid (h g : Heap) (lower : Int64) (uppers : List Int64) : Nat → List Value → Prop
  | _, [] => True
  | low, v :: items => ∃ c row, v = .array c ∧ low ≤ c ∧ g.array? c = some row ∧
    Filled h g lower low uppers none row ∧ Laid h g lower uppers (c + 1) items

namespace Laid

theorem kept (laid : Laid h g lower uppers low items) (le : low' ≤ low)
    (same : ∀ c row, low ≤ c → g.array? c = some row → g'.array? c = some row) :
    Laid h g' lower uppers low' items := by
  induction items generalizing low low' with
  | nil => trivial
  | cons v items ih =>
    obtain ⟨c, row, array, above, found, filled, later⟩ := laid
    refine ⟨c, row, array, Nat.le_trans le above, same c row above found, filled.kept le same, ?_⟩
    exact ih later (Nat.le_refl _) fun d row bound => same d row (by omega)

theorem getElem? (laid : Laid h g lower uppers low items) {k : Nat} {v : Value}
    (item : items[k]? = some v) : ∃ c row, v = .array c ∧ low ≤ c ∧ g.array? c = some row ∧
      Filled h g lower low uppers none row := by
  induction items generalizing low k with
  | nil => cases item
  | cons w items ih =>
    obtain ⟨c, row, array, above, found, filled, later⟩ := laid
    cases k with
    | zero => exact ⟨c, row, Option.some.inj item ▸ array, above, found, filled⟩
    | succ k =>
      obtain ⟨d, row', array', above', found', filled'⟩ := ih later item
      exact ⟨d, row', array', by omega, found', filled'.kept (by omega) fun _ _ _ same => same⟩

end Laid

def buildRow (lower : Int64) (uppers : List Int64) (g : Heap) : Heap × Value :=
  (((withDimensions lower uppers g).1.allocArray (withDimensions lower uppers g).2).1,
    .array (withDimensions lower uppers g).1.arrays.size)

theorem withDimensions_cons (lower upper next : Int64) (rest : List Int64) (g : Heap) :
    withDimensions lower (upper :: next :: rest) g =
      let built := buildItems (buildRow lower (next :: rest)) (ArrayCell.span lower upper) g #[]
      (built.1, ⟨lower, built.2⟩) := rfl

theorem laid_buildItems (filled : ∀ g, Filled h (withDimensions lower uppers g).1 lower
      g.arrays.size uppers none (withDimensions lower uppers g).2) (n : Nat) (g : Heap)
    (acc : Array Value) : ∃ g', ∃ items : List Value,
      buildItems (buildRow lower uppers) n g acc = (g', acc ++ items) ∧ items.length = n ∧
      g.Keeps g' ∧ Laid h g' lower uppers g.arrays.size items := by
  induction n generalizing g acc with
  | zero => exact ⟨g, [], by simp [buildItems], rfl, .refl g, trivial⟩
  | succ n ih =>
    let g₁ := (withDimensions lower uppers g).1
    let row := (withDimensions lower uppers g).2
    have kept : g.Keeps g₁ := (builds_withDimensions lower uppers g).1.toKeeps
    have last := keeps_allocArray g₁ row
    have found : (g₁.allocArray row).1.array? g₁.arrays.size = some row := by
      rw [array?_allocArray, if_pos rfl]
    obtain ⟨g₂, items, later, length, kept', laid⟩ :=
      ih (g₁.allocArray row).1 (acc.push (.array g₁.arrays.size))
    refine ⟨g₂, .array g₁.arrays.size :: items, ?_, congrArg (· + 1) length,
      (kept.trans last).trans kept', g₁.arrays.size, row, rfl, kept.size, kept'.array? found, ?_, ?_⟩
    · exact later.trans (by simp)
    · exact (filled g).kept (Nat.le_refl _) fun _ _ _ same => (last.trans kept').array? same
    · rw [← size_allocArray g₁ row]
      exact laid

theorem laid_withDimensions {next : Int64} {rest : List Int64}
    (filled : ∀ g, Filled h (withDimensions lower (next :: rest) g).1 lower g.arrays.size
      (next :: rest) none (withDimensions lower (next :: rest) g).2) (g : Heap) (upper : Int64) :
    ∃ g', ∃ items : List Value,
      withDimensions lower (upper :: next :: rest) g = (g', ⟨lower, items.toArray⟩) ∧
      items.length = ArrayCell.span lower upper ∧ g.Keeps g' ∧
      Laid h g' lower (next :: rest) g.arrays.size items := by
  obtain ⟨g', items, built, length, kept, laid⟩ :=
    laid_buildItems filled (ArrayCell.span lower upper) g #[]
  refine ⟨g', items, ?_, length, kept, laid⟩
  rw [withDimensions_cons, built]
  simp

theorem filled_withDimensions (h : Heap) (lower : Int64) (nonempty : uppers ≠ []) (g : Heap) :
    Filled h (withDimensions lower uppers g).1 lower g.arrays.size uppers none
      (withDimensions lower uppers g).2 := by
  induction uppers generalizing g with
  | nil => exact nonempty rfl
  | cons upper rest ih =>
    cases rest with
    | nil =>
      refine ⟨rfl, Array.size_replicate, fun k v item => ?_⟩
      exact Array.eq_of_mem_replicate (Array.mem_of_getElem? item)
    | cons next rest =>
      obtain ⟨g', items, built, length, -, laid⟩ :=
        laid_withDimensions (ih (List.cons_ne_nil next rest)) g upper
      rw [built]
      refine ⟨rfl, length, fun k v item => ?_⟩
      rw [List.getElem?_toArray] at item
      exact laid.getElem? item

/-- No array lies in two places among the cells from a number on. -/
def PlacedOnce (h : Heap) (low : Nat) : Prop :=
  ∀ c c' k k' d, low ≤ c → low ≤ c' → h.Holds c k d → h.Holds c' k' d → c = c' ∧ k = k'

/-- What lies in an older one of the new cells is older too, what lies in a later one is later. -/
theorem Builds.holds_cases (first : h.Builds g) (second : g.Builds g') {c k d : Nat}
    (low : h.arrays.size ≤ c) (holds : g'.Holds c k d) :
    g.Holds c k d ∧ d < g.arrays.size ∨ g.arrays.size ≤ c ∧ g.arrays.size ≤ d ∧ d < c := by
  by_cases older : c < g.arrays.size
  · obtain ⟨b, found, item⟩ := holds
    have holds : g.Holds c k d := ⟨b, (second.old c older).symm.trans found, item⟩
    exact .inl ⟨holds, Nat.lt_trans (first.new c d low holds.element).2 older⟩
  · have later := Nat.le_of_not_lt older
    exact .inr ⟨later, second.new c d later holds.element⟩

theorem PlacedOnce.trans (first : h.Builds g) (second : g.Builds g')
    (before : g.PlacedOnce h.arrays.size) (after : g'.PlacedOnce g.arrays.size) :
    g'.PlacedOnce h.arrays.size := by
  intro c c' k k' d low low' holds holds'
  rcases first.holds_cases second low holds with ⟨old, below⟩ | ⟨later, above, -⟩
  · rcases first.holds_cases second low' holds' with ⟨old', -⟩ | ⟨-, above, -⟩
    · exact before c c' k k' d low low' old old'
    · exact absurd below (Nat.not_lt_of_le above)
  · rcases first.holds_cases second low' holds' with ⟨-, below⟩ | ⟨later', -, -⟩
    · exact absurd below (Nat.not_lt_of_le above)
    · exact after c c' k k' d later later' holds holds'

/-- New cells and the elements of an array that is still to be allocated: no array lies in two
places of them. -/
structure Pending (h g : Heap) (items : Array Value) : Prop where
  builds : h.Builds g
  placed : g.PlacedOnce h.arrays.size
  within : ∀ v ∈ items, v.Within h.arrays.size g.arrays.size
  distinct : ∀ (k k' d : Nat), items[k]? = some (.array d) → items[k']? = some (.array d) → k = k'
  apart : ∀ c d, h.arrays.size ≤ c → g.Element c d → .array d ∉ items

namespace Pending

variable {acc : Array Value}

theorem allocArray (pending : Pending h g a.items) :
    (g.allocArray a).1.PlacedOnce h.arrays.size := by
  have cases : ∀ {c k d}, (g.allocArray a).1.Holds c k d →
      g.Holds c k d ∨ c = g.arrays.size ∧ a.items[k]? = some (.array d) := by
    rintro c k d ⟨b, found, item⟩
    rw [array?_allocArray] at found
    split at found
    · exact .inr ⟨‹_›, Option.some.inj found ▸ item⟩
    · exact .inl ⟨b, found, item⟩
  intro c c' k k' d low low' holds holds'
  rcases cases holds with before | ⟨rfl, item⟩
  · rcases cases holds' with before' | ⟨-, item'⟩
    · exact pending.placed c c' k k' d low low' before before'
    · exact absurd (Array.mem_of_getElem? item') (pending.apart c d low before.element)
  · rcases cases holds' with before' | ⟨rfl, item'⟩
    · exact absurd (Array.mem_of_getElem? item) (pending.apart c' d low' before'.element)
    · exact ⟨rfl, pending.distinct k k' d item item'⟩

theorem empty (h : Heap) (none : ∀ v ∈ acc, ∀ d, v ≠ .array d) : Pending h h acc where
  builds := .refl h
  placed c _ k _ d low _ holds _ := absurd holds.element.lt_size (Nat.not_lt_of_le low)
  within v member := by
    cases v with
    | array d => exact absurd rfl (none _ member d)
    | _ => trivial
  distinct k _ d item _ := absurd rfl (none _ (Array.mem_of_getElem? item) d)
  apart c d _ _ member := absurd rfl (none _ member d)

theorem push (pending : Pending h g acc) (row : Pending g g' a.items) :
    Pending h (g'.allocArray a).1 (acc.push (.array g'.arrays.size)) := by
  have built := row.builds.allocArray row.within
  have size := row.builds.size
  have before : ∀ {d}, .array d ∈ acc → d < g.arrays.size := fun member =>
    (pending.within _ member).2
  refine ⟨pending.builds.trans built, pending.placed.trans pending.builds built row.allocArray,
    forall_mem_push (fun v member => (pending.within v member).mono built.size)
      (within_new (pending.builds.trans row.builds) a), fun k k' d item item' => ?_,
    fun c d low element member => ?_⟩
  · rw [Array.getElem?_push] at item item'
    split at item <;> split at item'
    · omega
    · have := before (Array.mem_of_getElem? item')
      obtain rfl := Value.array.inj (Option.some.inj item)
      omega
    · have := before (Array.mem_of_getElem? item)
      obtain rfl := Value.array.inj (Option.some.inj item')
      omega
    · exact pending.distinct k k' d item item'
  · have last := element.lt_size
    rw [size_allocArray] at last
    obtain ⟨k, holds⟩ := element.holds
    rcases pending.builds.holds_cases built low holds with ⟨old, below⟩ | ⟨-, above, less⟩
    · rcases Array.mem_push.mp member with member | same
      · exact pending.apart c d low old.element member
      · obtain rfl := Value.array.inj same
        omega
    · rcases Array.mem_push.mp member with member | same
      · have := before member
        omega
      · obtain rfl := Value.array.inj same
        omega

theorem buildItems (rows : ∀ g, Pending g (withDimensions lower uppers g).1
      (withDimensions lower uppers g).2.items) (n : Nat) (pending : Pending h g acc) :
    Pending h (Heap.buildItems (buildRow lower uppers) n g acc).1
      (Heap.buildItems (buildRow lower uppers) n g acc).2 := by
  induction n generalizing g acc with
  | zero => exact pending
  | succ n ih => exact ih (pending.push (rows g))

theorem unshared (pending : Pending h g a.items) :
    (g.allocArray a).1.Unshared (g.allocArray a).2 := by
  have built := pending.builds.allocArray pending.within
  have new : ∀ {c}, ReflTransGen (g.allocArray a).1.Element (g.allocArray a).2 c →
      h.arrays.size ≤ c := fun reaches => built.reaches_new pending.builds.size reaches
  refine ⟨fun c c' k k' d inside inside' holds holds' => ?_, fun c inside element => ?_⟩
  · exact pending.allocArray c c' k k' d (new inside) (new inside') holds holds'
  · have last := element.lt_size
    have less : g.arrays.size < c := (built.new c _ (new inside) element).2
    rw [size_allocArray] at last
    omega

end Pending

theorem pending_withDimensions (lower : Int64) (uppers : List Int64) (h : Heap) :
    Pending h (withDimensions lower uppers h).1 (withDimensions lower uppers h).2.items := by
  induction uppers generalizing h with
  | nil => exact .empty h fun v member => absurd member (Array.not_mem_empty v)
  | cons upper rest ih =>
    cases rest with
    | nil =>
      refine .empty h fun v member d => ?_
      rw [Array.eq_of_mem_replicate member]
      exact nofun
    | cons next rest =>
      exact (Pending.empty h (by simp)).buildItems ih _

/-- One dimension has more elements than can be asked for, and none before it is without
elements. -/
def Oversized (lower : Int64) (uppers : List Int64) : Prop :=
  ∃ front upper rest, uppers = front ++ upper :: rest ∧ (∀ u ∈ front, lower ≤ u) ∧
    (ArrayCell.sizeLimit : Int) < upper.toInt - lower.toInt + 1

theorem exceedsCapacity_iff (fits : ∀ upper ∈ uppers, ArrayCell.SpanFits lower upper) :
    exceedsCapacity lower uppers = true ↔ Oversized lower uppers := by
  induction uppers with
  | nil => simp [exceedsCapacity, Oversized]
  | cons upper rest ih =>
    obtain ⟨fits, later⟩ := List.forall_mem_cons.mp fits
    have size : ArrayCell.sizeLimit < ArrayCell.span lower upper ↔
        (ArrayCell.sizeLimit : Int) < upper.toInt - lower.toInt + 1 := by
      rw [ArrayCell.span_eq fits]
      omega
    rw [exceedsCapacity, Bool.or_eq_true, Bool.and_eq_true, decide_eq_true_iff, decide_eq_true_iff,
      ih later, size, ArrayCell.span_pos_iff fits]
    constructor
    · rintro (large | ⟨filled, front, last, behind, rfl, before, large⟩)
      · exact ⟨[], upper, rest, rfl, nofun, large⟩
      · exact ⟨upper :: front, last, behind, rfl, List.forall_mem_cons.mpr ⟨filled, before⟩, large⟩
    · rintro ⟨front, last, behind, same, before, large⟩
      cases front with
      | nil =>
        obtain ⟨rfl, rfl⟩ := List.cons.inj same
        exact .inl large
      | cons first front =>
        obtain ⟨rfl, rfl⟩ := List.cons.inj same
        obtain ⟨filled, before⟩ := List.forall_mem_cons.mp before
        exact .inr ⟨filled, front, last, behind, rfl, before, large⟩

/-- An array that has the bounds it was declared with, one dimension for each of the last indices.
All its elements are empty, and no two of its rows are the same when it is allocated. -/
structure Declared (h : Heap) (lower : Int64) (uppers : List Int64) (a : ArrayCell) : Prop where
  dimensions : h.dimensions a = uppers.length
  bounds : ∀ (k : Nat) upper, uppers[k]? = some upper → upper ≠ Int64.maxValue →
    h.bounds a (k + 1) = .ok (some (lower, upper))
  unbounded : ∀ k, k = 0 ∨ uppers.length < k → h.bounds a k = .ok none
  flatten : h.flatten a =
    List.replicate (uppers.map fun upper => (upper.toInt - lower.toInt + 1).toNat).prod .empty
  unshared : (h.allocArray a).1.Unshared (h.allocArray a).2
  inside : ∀ path, path.length = uppers.length → Inside lower uppers path →
    h.getPath a path = some .empty
  outside : ∀ path, path.length = uppers.length → ¬Inside lower uppers path →
    h.getPath a path = none

theorem declared_withDimensions (nonempty : uppers ≠ []) (filled : ∀ upper ∈ uppers, lower ≤ upper)
    (fits : ∀ upper ∈ uppers, ArrayCell.SpanFits lower upper) (h : Heap) :
    (withDimensions lower uppers h).1.Declared lower uppers (withDimensions lower uppers h).2 := by
  have content := filled_withDimensions h lower nonempty h
  have shape := content.rectangular nofun
  have spans : ∀ upper ∈ uppers, 0 < ArrayCell.span lower upper := fun upper member =>
    (ArrayCell.span_pos_iff (fits upper member)).mpr (filled upper member)
  refine ⟨shape.dimensions spans, fun k => (shape.bounds filled fits k).1, fun k beyond => ?_, ?_,
    (pending_withDimensions lower uppers h).unshared,
    fun path length => (content.getPath nofun fits length).1,
    fun path length => (content.getPath nofun fits length).2⟩
  · cases k with
    | zero => rw [Heap.bounds]
    | succ k =>
      rcases beyond with beyond | beyond
      · cases beyond
      · exact (shape.bounds filled fits k).2 (Nat.le_of_lt_succ beyond)
  · have nests := shape.ranked.nestsItems
    have sizes : uppers.map (ArrayCell.span lower) =
        uppers.map fun upper => (upper.toInt - lower.toInt + 1).toNat :=
      List.map_congr_left fun upper member => ArrayCell.span_eq (fits upper member)
    rw [Heap.flatten, arrayDepth, ← flattenCell_of_nests nests (Nat.le_add_right _ uppers.length),
      ← sizes]
    exact content.flattenCell (by omega)

end Heap

/-- Declared shape. An array whose last indices are not below the common first one, and whose
dimensions have a number of elements that is a word, can be built unless one dimension has more
elements than can be asked for. Then it has the dimensions, bounds and elements it was declared
with. -/
theorem declared_shape (h : Heap) (lower : Int64) (uppers : List Int64) (nonempty : uppers ≠ [])
    (filled : ∀ upper ∈ uppers, lower ≤ upper)
    (fits : ∀ upper ∈ uppers, ArrayCell.SpanFits lower upper) :
    ((∃ upper ∈ uppers, (ArrayCell.sizeLimit : Int) < upper.toInt - lower.toInt + 1) →
      Heap.buildArray lower uppers h = .error .capacityOverflow) ∧
    ((∀ upper ∈ uppers, upper.toInt - lower.toInt + 1 ≤ ArrayCell.sizeLimit) →
      ∃ h' a, Heap.buildArray lower uppers h = .ok (h', a) ∧ h'.Declared lower uppers a) := by
  constructor
  · rintro ⟨upper, member, large⟩
    obtain ⟨front, rest, rfl⟩ := List.append_of_mem member
    refine if_pos ((Heap.exceedsCapacity_iff fits).mpr ⟨front, upper, rest, rfl, ?_, large⟩)
    exact fun u before => filled u (List.mem_append_left _ before)
  · intro small
    refine ⟨_, _, if_neg fun exceeds => ?_, Heap.declared_withDimensions nonempty filled fits h⟩
    obtain ⟨front, upper, rest, rfl, -, large⟩ := (Heap.exceedsCapacity_iff fits).mp exceeds
    exact Int.not_lt_of_ge (small upper (List.mem_append_right _ List.mem_cons_self)) large

theorem declared_shape_of_two_by_three :
    ∃ h a, Heap.buildArray 1 [2, 3] {} = .ok (h, a) ∧ h.Declared 1 [2, 3] a := by
  refine (declared_shape {} 1 [2, 3] (List.cons_ne_nil 2 [3]) ?_ ?_).2 ?_ <;>
    rw [List.forall_mem_cons, List.forall_mem_singleton] <;> decide

/-- So not all such arrays can be built: one of 2 ^ 62 + 1 elements cannot. -/
theorem large_array_not_built : (0 : Int64) ≤ 4611686018427387904 ∧
    ArrayCell.SpanFits 0 4611686018427387904 ∧
    ¬∃ result, Heap.buildArray 0 [4611686018427387904] {} = .ok result := by
  refine ⟨by decide, by decide, fun ⟨result, built⟩ => ?_⟩
  rw [Heap.buildArray, if_pos (by decide)] at built
  cases built

end ServerScript
