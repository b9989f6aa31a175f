import Mathlib.Algebra.Group.Nat.Defs
import Mathlib.Data.List.Forall2
import ServerScript.Proofs.ArrayDepth
import ServerScript.Proofs.ArrayPaths

/-! Shapes of arrays. An array of several dimensions has one level of rows for each of them; it is
rectangular if all rows of a level have the same bounds. Its number of dimensions and their bounds
are read off its first elements, and agree with its shape. What an array has that was filled from
an older one is read at paths: they lie between the bounds, and lead to the old elements or to
empty ones. -/
namespace ServerScript

open Relation

namespace ArrayCell

/-- The number of elements between two bounds is a word. -/
def SpanFits (lower upper : Int64) : Prop := upper.toInt - lower.toInt + 1 ≤ Number.wordMax

instance (lower upper : Int64) : Decidable (SpanFits lower upper) :=
  inferInstanceAs (Decidable (_ ≤ _))

variable {a : ArrayCell} {lower upper i : Int64}

theorem span_eq (fits : SpanFits lower upper) :
    span lower upper = (upper.toInt - lower.toInt + 1).toNat := by
  unfold SpanFits at fits
  rw [span]
  cases first : Number.word? (upper.toInt - lower.toInt) with
  | none =>
    have below : ¬(Number.wordMin ≤ upper.toInt - lower.toInt ∧
        upper.toInt - lower.toInt ≤ Number.wordMax) := fun within => by
      rw [Number.word?, if_pos within] at first
      cases first
    have negative : Number.wordMin < 0 := by decide
    dsimp only [Option.bind_none]
    omega
  | some n =>
    have same := Number.toInt_of_word? first
    have low : Number.wordMin ≤ n.toInt + 1 := by
      have := Int64.le_toInt n
      simp only [Number.wordMin]
      omega
    have high : n.toInt + 1 ≤ Number.wordMax := by omega
    rw [Option.bind_some, Number.word?, if_pos ⟨low, high⟩]
    dsimp only
    rw [Number.toInt_ofInt_of_fits low high, same]

theorem span_pos_iff (fits : SpanFits lower upper) : 0 < span lower upper ↔ lower ≤ upper := by
  rw [Int64.le_iff_toInt_le, span_eq fits]
  omega

theorem get?_of_distance {k : Nat} (place : i.toInt = a.lower.toInt + k)
    (small : (k : Int) ≤ Number.wordMax) : a.get? i = a.items[k]? := by
  have distance : i.toInt - a.lower.toInt = k := by omega
  have low : Number.wordMin ≤ (k : Int) := by
    simp only [Number.wordMin]
    omega
  rw [get?, offset?, distance, Number.word?, if_pos ⟨low, small⟩, Option.bind_some,
    Number.toInt_ofInt_of_fits low small]
  split
  · rfl
  · rw [Option.bind_none, Array.getElem?_eq_none]
    omega

theorem exists_position (fits : SpanFits lower upper) (low : lower ≤ i) (high : i ≤ upper) :
    ∃ k, k < span lower upper ∧ ∀ a : ArrayCell, a.lower = lower → a.get? i = a.items[k]? := by
  rw [Int64.le_iff_toInt_le] at low high
  have size := span_eq fits
  unfold SpanFits at fits
  refine ⟨(i.toInt - lower.toInt).toNat, by omega, ?_⟩
  rintro a rfl
  refine get?_of_distance ?_ ?_ <;> omega

theorem get?_of_outside (first : a.lower = lower) (size : a.items.size = span lower upper)
    (fits : SpanFits lower upper) (outside : ¬(lower ≤ i ∧ i ≤ upper)) : a.get? i = none := by
  rw [Int64.le_iff_toInt_le, Int64.le_iff_toInt_le] at outside
  rw [span_eq fits] at size
  cases place : a.offset? i with
  | none => rw [get?, place, Option.bind_none]
  | some k =>
    have bound := Heap.lt_of_offset? place
    have same := toInt_of_offset? place
    rw [first] at same
    omega

theorem upper_eq (first : a.lower = lower) (size : a.items.size = span lower upper)
    (fits : SpanFits lower upper) (filled : lower ≤ upper) (below : upper ≠ Int64.maxValue) :
    a.upper = .ok upper := by
  rw [Int64.le_iff_toInt_le] at filled
  have small := Int64.le_toInt upper
  have large : upper.toInt < 0x7fffffffffffffff := by
    refine lt_of_le_of_ne (Int64.toInt_le upper) fun same => below ?_
    exact Int64.toInt_inj.mp same
  have count : a.lower.toInt + a.items.size = upper.toInt + 1 := by
    rw [size, span_eq fits, first]
    omega
  have low : Number.wordMin ≤ upper.toInt + 1 := by
    simp only [Number.wordMin]
    omega
  have high : upper.toInt + 1 ≤ Number.wordMax := by
    simp only [Number.wordMax]
    omega
  rw [ArrayCell.upper, count, Number.word?, if_pos ⟨low, high⟩]
  dsimp only
  rw [Number.toInt_ofInt_of_fits low high, Int.add_sub_cancel, Number.word?_toInt]

end ArrayCell

namespace Heap

def rowIn? (h : Heap) (a : ArrayCell) (k : Nat) : Option ArrayCell :=
  (a.items[k]?.bind Value.cell?).bind h.array?

/-- An array of a number of dimensions whose levels all start at one index. Rows of a level may have
different lengths. -/
def Ranked (h : Heap) (lower : Int64) : Nat → ArrayCell → Prop
  | 0, _ => False
  | 1, a => a.lower = lower ∧ ∀ v ∈ a.items, ∀ c, v ≠ .array c
  | n + 2, a => a.lower = lower ∧
    ∀ v ∈ a.items, ∃ c row, v = .array c ∧ h.array? c = some row ∧ h.Ranked lower (n + 1) row

/-- An array of one dimension for each of the last indices; the rows of a level all have its
bounds. -/
def Rectangular (h : Heap) (lower : Int64) : List Int64 → ArrayCell → Prop
  | [], _ => False
  | [upper], a => a.lower = lower ∧ a.items.size = ArrayCell.span lower upper ∧
    ∀ v ∈ a.items, ∀ c, v ≠ .array c
  | upper :: next :: rest, a => a.lower = lower ∧ a.items.size = ArrayCell.span lower upper ∧
    ∀ v ∈ a.items, ∃ c row, v = .array c ∧ h.array? c = some row ∧
      h.Rectangular lower (next :: rest) row

/-- An array of the store `g` that has the bounds of a rectangular one and was filled from an array
of the store `h`: an element is the old one in its position, or empty if there is none. Its rows lie
in cells from `low` on. -/
def Filled (h g : Heap) (lower : Int64) (low : Nat) :
    List Int64 → Option ArrayCell → ArrayCell → Prop
  | [], _, _ => False
  | [upper], old, a => a.lower = lower ∧ a.items.size = ArrayCell.span lower upper ∧
    ∀ (k : Nat) v, a.items[k]? = some v → v = (old.bind (·.items[k]?)).getD .empty
  | upper :: next :: rest, old, a => a.lower = lower ∧ a.items.size = ArrayCell.span lower upper ∧
    ∀ (k : Nat) v, a.items[k]? = some v → ∃ c row, v = .array c ∧ low ≤ c ∧ g.array? c = some row ∧
      Filled h g lower low (next :: rest) (old.bind (h.rowIn? · k)) row

def Inside (lower : Int64) (uppers path : List Int64) : Prop :=
  List.Forall₂ (fun upper index => lower ≤ index ∧ index ≤ upper) uppers path

/-- Arrays of two stores that have the same bounds and elements at every depth. -/
structure SameContents (h g : Heap) (a b : ArrayCell) : Prop where
  lower : b.lower = a.lower
  size : b.items.size = a.items.size
  items : ∀ (k : Nat) v w, a.items[k]? = some v → b.items[k]? = some w → h.Mirrors g v w

variable {h g g' : Heap} {lower : Int64} {uppers path : List Int64} {low low' n depth : Nat}
  {old : Option ArrayCell} {a b : ArrayCell}

theorem Ranked.first (ranked : h.Ranked lower n a) : a.lower = lower := by
  match n, ranked with
  | 1, ranked => exact ranked.1
  | _ + 2, ranked => exact ranked.1

theorem Ranked.rowIn? (ranked : h.Ranked lower (n + 2) a) {k : Nat} {row : ArrayCell}
    (found : h.rowIn? a k = some row) : h.Ranked lower (n + 1) row := by
  obtain ⟨c, item, known⟩ := Option.bind_eq_some_iff.mp found
  obtain ⟨v, item, same⟩ := Option.bind_eq_some_iff.mp item
  obtain ⟨d, row', rfl, known', inner⟩ := ranked.2 v (Array.mem_of_getElem? item)
  obtain rfl := Option.some.inj same
  exact Option.some.inj (known'.symm.trans known) ▸ inner

theorem Ranked.element {c d : Nat} (ranked : h.Ranked lower n a) (found : h.array? c = some a)
    (element : h.Element c d) : ∃ m b, m < n ∧ h.array? d = some b ∧ h.Ranked lower m b := by
  obtain ⟨b, known, member⟩ := element
  obtain rfl := Option.some.inj (known.symm.trans found)
  match n, ranked with
  | 1, ranked => exact absurd rfl (ranked.2 _ member d)
  | n + 2, ranked =>
    obtain ⟨e, row, same, inner, ranked⟩ := ranked.2 _ member
    obtain rfl := Value.array.inj same
    exact ⟨n + 1, row, Nat.lt_succ_self _, inner, ranked⟩

theorem Ranked.inside {c d : Nat} (ranked : h.Ranked lower n a) (found : h.array? c = some a)
    (inside : TransGen h.Element c d) : ∃ m b, m < n ∧ h.array? d = some b ∧ h.Ranked lower m b := by
  induction inside with
  | single element => exact ranked.element found element
  | tail _ element ih =>
    obtain ⟨m, b, less, known, inner⟩ := ih
    obtain ⟨m', b', less', known, inner⟩ := inner.element known element
    exact ⟨m', b', Nat.lt_trans less' less, known, inner⟩

theorem Ranked.not_inside {c : Nat} (ranked : h.Ranked lower n a) (found : h.array? c = some a) :
    ¬TransGen h.Element c c := by
  induction n using Nat.strong_induction_on generalizing a with
  | _ n ih =>
    intro cycle
    obtain ⟨m, b, less, known, inner⟩ := ranked.inside found cycle
    exact ih m less inner known cycle

theorem Ranked.nestsItems (ranked : h.Ranked lower n a) : h.NestsItems h.arrays.size a := by
  intro v member
  by_contra deep
  obtain ⟨c, rest, rfl, length, chain, bounded⟩ := exists_path _ deep
  obtain ⟨m, row, found, inner⟩ : ∃ m row, h.array? c = some row ∧ h.Ranked lower m row := by
    match n, ranked with
    | 1, ranked => exact absurd rfl (ranked.2 _ member c)
    | n + 2, ranked =>
      obtain ⟨d, row, same, found, inner⟩ := ranked.2 _ member
      obtain rfl := Value.array.inj same
      exact ⟨n + 1, row, found, inner⟩
  have later : (c :: rest).Pairwise (TransGen h.Element) :=
    List.isChain_iff_pairwise.mp (chain.imp fun _ _ => TransGen.single)
  have few := length_le_of_isChain chain bounded fun d member => by
    rcases List.mem_cons.mp member with rfl | member
    · exact inner.not_inside found
    · obtain ⟨m', row', -, found', inner'⟩ :=
        inner.inside found ((List.pairwise_cons.mp later).1 d member)
      exact inner'.not_inside found'
  rw [List.length_cons, length] at few
  omega

theorem Rectangular.ranked (shape : h.Rectangular lower uppers a) :
    h.Ranked lower uppers.length a := by
  induction uppers generalizing a with
  | nil => exact shape
  | cons upper rest ih =>
    cases rest with
    | nil => exact ⟨shape.1, shape.2.2⟩
    | cons next rest =>
      refine ⟨shape.1, fun v member => ?_⟩
      obtain ⟨c, row, same, found, inner⟩ := shape.2.2 v member
      exact ⟨c, row, same, found, ih inner⟩

theorem Rectangular.dimensionsOf (shape : h.Rectangular lower uppers a)
    (filled : ∀ upper ∈ uppers, 0 < ArrayCell.span lower upper) (deep : uppers.length ≤ depth) :
    h.dimensionsOf depth a = uppers.length := by
  induction uppers generalizing a depth with
  | nil => exact shape.elim
  | cons upper rest ih =>
    obtain ⟨depth, rfl⟩ := Nat.exists_eq_add_of_le' (Nat.le_trans (Nat.le_add_left 1 _) deep)
    rw [Heap.dimensionsOf]
    cases rest with
    | nil =>
      split
      · rename_i c first
        exact absurd rfl (shape.2.2 _ (Array.mem_of_getElem? first) c)
      · rfl
    | cons next rest =>
      have size : 0 < a.items.size := shape.2.1 ▸ filled upper List.mem_cons_self
      have first := Array.getElem?_eq_getElem size
      obtain ⟨c, row, same, found, inner⟩ := shape.2.2 _ (Array.getElem_mem size)
      rw [first, same]
      dsimp only
      rw [found]
      dsimp only
      rw [ih inner (fun upper member => filled upper (List.mem_cons_of_mem _ member))
        (Nat.le_of_succ_le_succ deep), Nat.add_comm]
      rfl

theorem Rectangular.dimensions (shape : h.Rectangular lower uppers a)
    (filled : ∀ upper ∈ uppers, 0 < ArrayCell.span lower upper) :
    h.dimensions a = uppers.length := by
  have nests := shape.ranked.nestsItems
  have enough := dimensionsOf_of_nests nests (Nat.le_add_right h.arrays.size uppers.length)
  rw [Heap.dimensions, arrayDepth, ← enough]
  exact shape.dimensionsOf filled (by omega)

theorem Rectangular.bounds (shape : h.Rectangular lower uppers a)
    (filled : ∀ upper ∈ uppers, lower ≤ upper)
    (fits : ∀ upper ∈ uppers, ArrayCell.SpanFits lower upper) (k : Nat) :
    (∀ upper, uppers[k]? = some upper → upper ≠ Int64.maxValue →
      h.bounds a (k + 1) = .ok (some (lower, upper))) ∧
    (uppers.length ≤ k → h.bounds a (k + 1) = .ok none) := by
  induction uppers generalizing a k with
  | nil => exact shape.elim
  | cons upper rest ih =>
    have fits' := fits upper List.mem_cons_self
    have filled' := filled upper List.mem_cons_self
    cases k with
    | zero =>
      refine ⟨fun upper' same below => ?_, fun beyond => absurd beyond (Nat.not_succ_le_zero _)⟩
      obtain rfl := Option.some.inj same
      obtain ⟨first, size⟩ : a.lower = lower ∧ a.items.size = ArrayCell.span lower upper := by
        cases rest with
        | nil => exact ⟨shape.1, shape.2.1⟩
        | cons next rest => exact ⟨shape.1, shape.2.1⟩
      rw [Heap.bounds, ArrayCell.upper_eq first size fits' filled' below, first]
      rfl
    | succ k =>
      rw [Heap.bounds]
      cases rest with
      | nil =>
        refine ⟨fun upper same => ?_, fun _ => ?_⟩
        · cases same
        · split
          · rename_i c first
            exact absurd rfl (shape.2.2 _ (Array.mem_of_getElem? first) c)
          · rfl
      | cons next rest =>
        have size : 0 < a.items.size := shape.2.1 ▸ (ArrayCell.span_pos_iff fits').mpr filled'
        obtain ⟨c, row, same, found, inner⟩ := shape.2.2 _ (Array.getElem_mem size)
        rw [Array.getElem?_eq_getElem size, same]
        dsimp only
        rw [found]
        dsimp only
        rw [List.getElem?_cons_succ, List.length_cons, Nat.succ_le_succ_iff]
        exact ih inner (fun upper member => filled upper (List.mem_cons_of_mem _ member))
          (fun upper member => fits upper (List.mem_cons_of_mem _ member)) k

theorem flatMap_replicate {items : List α} {f : α → List β} {b : β}
    (same : ∀ a ∈ items, f a = List.replicate n b) :
    items.flatMap f = List.replicate (items.length * n) b := by
  rw [List.flatMap_def, List.map_congr_left same, List.map_const', List.flatten_replicate_replicate]

namespace Filled

theorem kept (filled : Filled h g lower low uppers old a) (le : low' ≤ low)
    (same : ∀ c row, low ≤ c → g.array? c = some row → g'.array? c = some row) :
    Filled h g' lower low' uppers old a := by
  induction uppers generalizing old a with
  | nil => exact filled
  | cons upper rest ih =>
    cases rest with
    | nil => exact filled
    | cons next rest =>
      refine ⟨filled.1, filled.2.1, fun k v item => ?_⟩
      obtain ⟨c, row, array, above, found, inner⟩ := filled.2.2 k v item
      exact ⟨c, row, array, Nat.le_trans le above, same c row above found, ih inner⟩

theorem rectangular (filled : Filled h g lower low uppers old a)
    (ranked : ∀ b, old = some b → h.Ranked lower uppers.length b) :
    g.Rectangular lower uppers a := by
  induction uppers generalizing old a with
  | nil => exact filled
  | cons upper rest ih =>
    cases rest with
    | nil =>
      refine ⟨filled.1, filled.2.1, fun v member c => ?_⟩
      obtain ⟨k, item⟩ := Array.mem_iff_getElem?.mp member
      rw [filled.2.2 k v item]
      cases old with
      | none => exact nofun
      | some b =>
        rw [Option.bind_some]
        cases kept : b.items[k]? with
        | none => exact nofun
        | some w => exact (ranked b rfl).2 w (Array.mem_of_getElem? kept) c
    | cons next rest =>
      refine ⟨filled.1, filled.2.1, fun v member => ?_⟩
      obtain ⟨k, item⟩ := Array.mem_iff_getElem?.mp member
      obtain ⟨c, row, array, -, found, inner⟩ := filled.2.2 k v item
      refine ⟨c, row, array, found, ih inner fun b same => ?_⟩
      obtain ⟨b, rfl, place⟩ := Option.bind_eq_some_iff.mp same
      exact (ranked b rfl).rowIn? place

theorem getPath (filled : Filled h g lower low uppers old a)
    (ranked : ∀ b, old = some b → h.Ranked lower uppers.length b)
    (fits : ∀ upper ∈ uppers, ArrayCell.SpanFits lower upper)
    (length : path.length = uppers.length) :
    (Inside lower uppers path →
      g.getPath a path = some ((old.bind (h.getPath · path)).getD .empty)) ∧
    (¬Inside lower uppers path → g.getPath a path = none) := by
  induction uppers generalizing old a path with
  | nil => exact filled.elim
  | cons upper rest ih =>
    obtain ⟨i, path, rfl⟩ := List.exists_cons_of_length_eq_add_one length
    have fits' := fits upper List.mem_cons_self
    cases rest with
    | nil =>
      obtain rfl := List.length_eq_zero_iff.mp (Nat.succ.inj length)
      rw [Inside, List.forall₂_cons, and_iff_left List.Forall₂.nil, Heap.getPath]
      refine ⟨fun inside => ?_, ArrayCell.get?_of_outside filled.1 filled.2.1 fits'⟩
      obtain ⟨k, bound, reads⟩ := ArrayCell.exists_position fits' inside.1 inside.2
      have item := Array.getElem?_eq_getElem (filled.2.1.symm ▸ bound)
      rw [reads a filled.1, item, filled.2.2 k _ item]
      congr 2
      exact Option.bind_congr fun b same => (reads b (ranked b same).first).symm
    | cons next rest =>
      obtain ⟨j, path, rfl⟩ := List.exists_cons_of_length_eq_add_one (Nat.succ.inj length)
      rw [Inside, List.forall₂_cons, getPath_rows]
      by_cases inside : lower ≤ i ∧ i ≤ upper
      · obtain ⟨k, bound, reads⟩ := ArrayCell.exists_position fits' inside.1 inside.2
        have item := Array.getElem?_eq_getElem (filled.2.1.symm ▸ bound)
        obtain ⟨c, row, array, -, found, inner⟩ := filled.2.2 k _ item
        have rows : old.bind (h.getPath · (i :: j :: path)) =
            (old.bind (h.rowIn? · k)).bind (h.getPath · (j :: path)) := by
          rw [Option.bind_assoc]
          refine Option.bind_congr fun b same => ?_
          rw [getPath_rows, reads b (ranked b same).first]
          rfl
        have here : ((a.get? i).bind Value.cell?).bind g.array? = some row := by
          rw [reads a filled.1, item, array]
          exact found
        rw [here, rows, Option.bind_some, and_iff_right inside]
        refine ih inner (fun b same => ?_)
          (fun upper member => fits upper (List.mem_cons_of_mem _ member)) (Nat.succ.inj length)
        obtain ⟨b, rfl, place⟩ := Option.bind_eq_some_iff.mp same
        exact (ranked b rfl).rowIn? place
      · rw [ArrayCell.get?_of_outside filled.1 filled.2.1 fits' inside]
        exact ⟨fun within => absurd within.1 inside, fun _ => rfl⟩

theorem flattenCell (filled : Filled h g lower low uppers none a) (deep : uppers.length ≤ depth) :
    g.flattenCell depth a =
      List.replicate (uppers.map (ArrayCell.span lower)).prod .empty := by
  induction uppers generalizing a depth with
  | nil => exact filled.elim
  | cons upper rest ih =>
    obtain ⟨depth, rfl⟩ := Nat.exists_eq_add_of_le' (Nat.le_trans (Nat.le_add_left 1 _) deep)
    rw [Heap.flattenCell]
    have length : a.items.toList.length = ArrayCell.span lower upper := by
      cases rest with
      | nil => exact filled.2.1
      | cons next rest => exact filled.2.1
    rw [List.map_cons, List.prod_cons, ← length]
    refine flatMap_replicate fun v member => ?_
    obtain ⟨k, item⟩ := Array.mem_iff_getElem?.mp (Array.mem_toList_iff.mp member)
    cases rest with
    | nil =>
      obtain rfl := filled.2.2 k v item
      rfl
    | cons next rest =>
      obtain ⟨c, row, rfl, -, found, inner⟩ := filled.2.2 k v item
      dsimp only
      rw [found]
      exact ih inner (Nat.le_of_succ_le_succ deep)

theorem sameContents (filled : Filled h g lower low uppers (some b) a)
    (shape : h.Rectangular lower uppers b) : h.SameContents g b a := by
  induction uppers generalizing a b with
  | nil => exact filled.elim
  | cons upper rest ih =>
    cases rest with
    | nil =>
      refine ⟨filled.1.trans shape.1.symm, filled.2.1.trans shape.2.1.symm, fun k v w item item' => ?_⟩
      rw [filled.2.2 k w item', Option.bind_some, item, Option.getD_some]
      exact .other (shape.2.2 v (Array.mem_of_getElem? item))
    | cons next rest =>
      refine ⟨filled.1.trans shape.1.symm, filled.2.1.trans shape.2.1.symm, fun k v w item item' => ?_⟩
      obtain ⟨c, row, rfl, found, inner⟩ := shape.2.2 v (Array.mem_of_getElem? item)
      obtain ⟨c', row', rfl, -, found', inner'⟩ := filled.2.2 k w item'
      have place : h.rowIn? b k = some row := by
        rw [Heap.rowIn?, item]
        exact found
      rw [Option.bind_some, place] at inner'
      have same := ih inner' inner
      exact .array found found' same.lower same.size same.items

end Filled

end Heap

end ServerScript
