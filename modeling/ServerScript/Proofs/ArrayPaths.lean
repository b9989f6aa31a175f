import ServerScript.Proofs.ArraySharing

/-! Paths through nested arrays. All indices of a path but the last one lead to a row, and the last
one picks an element of this row; reading and writing differ only in what they do there. Where no
row lies in two places, only one path leads to a row, and what can be reached from a row lies
beyond that path. -/
namespace ServerScript

open Relation

namespace ArrayCell

variable {a : ArrayCell} {i j : Int64} {k : Nat}

theorem toInt_of_offset? (place : a.offset? i = some k) : i.toInt = a.lower.toInt + k := by
  obtain ⟨n, fits, place⟩ := Option.bind_eq_some_iff.mp place
  have same := Number.toInt_of_word? fits
  split at place
  · obtain rfl := Option.some.inj place
    omega
  · cases place

theorem offset?_inj (first : a.offset? i = some k) (second : a.offset? j = some k) : i = j := by
  apply Int64.toInt_inj.mp
  rw [toInt_of_offset? first, toInt_of_offset? second]

theorem offset?_put (a : ArrayCell) (k : Nat) (v : Value) (i : Int64) :
    (a.put k v).offset? i = a.offset? i := by
  simp [offset?, put]

theorem get?_eq_some_iff {v : Value} :
    a.get? i = some v ↔ ∃ k, a.offset? i = some k ∧ a.items[k]? = some v := Option.bind_eq_some_iff

theorem isSome_get? : (a.get? i).isSome = (a.offset? i).isSome := by
  rw [get?]
  cases place : a.offset? i with
  | none => rfl
  | some k => simp [Heap.lt_of_offset? place]

theorem get?_put_of_ne (v : Value) (place : a.offset? i = some k) (other : j ≠ i) :
    (a.put k v).get? j = a.get? j := by
  rw [get?, get?, offset?_put]
  refine Option.bind_congr fun l place' => ?_
  have apart : k ≠ l := fun same => other (offset?_inj (same ▸ place') place)
  exact Array.getElem?_setIfInBounds_ne apart

end ArrayCell

def Value.cell? : Value → Option Nat
  | .array c => some c
  | _ => none

theorem Value.cell?_eq_some_iff {v : Value} {c : Nat} : v.cell? = some c ↔ v = .array c := by
  cases v <;> simp [cell?]

namespace Heap

def row? (h : Heap) (cell : Nat) (index : Int64) : Option Nat :=
  ((h.array? cell).bind (·.get? index)).bind Value.cell?

def rowAt (h : Heap) (cell : Nat) (path : List Int64) : Option Nat := path.foldlM h.row? cell

/-- What is read at a path that starts at an array in a cell. -/
def readAt (h : Heap) (cell : Nat) (path : List Int64) : Option Value :=
  (h.array? cell).bind (h.getPath · path)

def Holds (h : Heap) (outer position inner : Nat) : Prop :=
  ∃ a, h.array? outer = some a ∧ a.items[position]? = some (.array inner)

/-- No array inside of an array lies in two places, and the array itself lies in none. -/
structure Unshared (h : Heap) (cell : Nat) : Prop where
  place : ∀ c c' k k' d, ReflTransGen h.Element cell c → ReflTransGen h.Element cell c' →
    h.Holds c k d → h.Holds c' k' d → c = c' ∧ k = k'
  root : ∀ c, ReflTransGen h.Element cell c → ¬h.Element c cell

variable {h : Heap} {cell c d t : Nat} {a : ArrayCell} {i : Int64} {k : Nat}
  {path p q : List Int64} {v : Value}

theorem Holds.element (holds : h.Holds c k d) : h.Element c d := by
  obtain ⟨a, found, item⟩ := holds
  exact ⟨a, found, Array.mem_of_getElem? item⟩

theorem Element.holds (element : h.Element c d) : ∃ k, h.Holds c k d := by
  obtain ⟨a, found, member⟩ := element
  obtain ⟨k, item⟩ := Array.mem_iff_getElem?.mp member
  exact ⟨k, a, found, item⟩

theorem row?_eq_some_iff : h.row? c i = some d ↔
    ∃ a k, h.array? c = some a ∧ a.offset? i = some k ∧ a.items[k]? = some (.array d) := by
  simp only [row?, Option.bind_eq_some_iff, Value.cell?_eq_some_iff, ArrayCell.get?_eq_some_iff]
  constructor
  · rintro ⟨v, ⟨a, found, k, place, item⟩, rfl⟩
    exact ⟨a, k, found, place, item⟩
  · rintro ⟨a, k, found, place, item⟩
    exact ⟨_, ⟨a, found, k, place, item⟩, rfl⟩

theorem rowAt_concat (h : Heap) (cell : Nat) (path : List Int64) (i : Int64) :
    h.rowAt cell (path ++ [i]) = (h.rowAt cell path).bind (h.row? · i) := by
  rw [rowAt, List.foldlM_append]
  exact Option.bind_congr fun c _ => bind_pure _

theorem rowAt_cons (h : Heap) (cell : Nat) (i : Int64) (path : List Int64) :
    h.rowAt cell (i :: path) = (h.row? cell i).bind (h.rowAt · path) := List.foldlM_cons

theorem exists_of_rowAt_concat (leads : h.rowAt cell (path ++ [i]) = some d) :
    ∃ c a k, h.rowAt cell path = some c ∧ h.array? c = some a ∧ a.offset? i = some k ∧
      a.items[k]? = some (.array d) := by
  rw [rowAt_concat] at leads
  obtain ⟨c, leads, row⟩ := Option.bind_eq_some_iff.mp leads
  obtain ⟨a, k, known⟩ := row?_eq_some_iff.mp row
  exact ⟨c, a, k, leads, known⟩

theorem reaches_of_rowAt (leads : h.rowAt cell path = some c) : ReflTransGen h.Element cell c := by
  induction path using List.reverseRecOn generalizing c with
  | nil => exact Option.some.inj leads ▸ .refl
  | append_singleton path i ih =>
    obtain ⟨d, a, k, leads, found, -, item⟩ := exists_of_rowAt_concat leads
    exact (ih leads).tail ⟨a, found, Array.mem_of_getElem? item⟩

@[simp] theorem readAt_nil (h : Heap) (cell : Nat) : h.readAt cell [] = none := by
  rw [readAt]
  cases h.array? cell <;> rfl

theorem getPath_rows (h : Heap) (a : ArrayCell) (i j : Int64) (path : List Int64) :
    h.getPath a (i :: j :: path) =
      (((a.get? i).bind Value.cell?).bind h.array?).bind (h.getPath · (j :: path)) := by
  rw [Heap.getPath]
  rcases a.get? i with _ | v
  · rfl
  · cases v <;> rfl

theorem readAt_cons {rest : List Int64} (more : rest ≠ []) (i : Int64) :
    h.readAt cell (i :: rest) = (h.row? cell i).bind (h.readAt · rest) := by
  obtain ⟨next, rest, rfl⟩ := List.exists_cons_of_ne_nil more
  rw [readAt, row?, Option.bind_assoc, Option.bind_assoc]
  refine Option.bind_congr fun a _ => ?_
  rw [getPath_rows, Option.bind_assoc, Option.bind_assoc]
  rfl

theorem setPath_cons {rest : List Int64} (more : rest ≠ []) (i : Int64) (v : Value) :
    h.setPath cell (i :: rest) v =
      (h.row? cell i).elim (h, false) fun inner => h.setPath inner rest v := by
  obtain ⟨next, rest, rfl⟩ := List.exists_cons_of_ne_nil more
  rw [setPath, row?]
  rcases (h.array? cell).bind (·.get? i) with _ | w
  · rfl
  · cases w <;> rfl

theorem readAt_concat (h : Heap) (cell : Nat) (path : List Int64) (i : Int64) :
    h.readAt cell (path ++ [i]) =
      (h.rowAt cell path).bind fun c => (h.array? c).bind (·.get? i) := by
  induction path generalizing cell with
  | nil => rfl
  | cons j path ih =>
    rw [List.cons_append, readAt_cons (List.append_ne_nil_of_right_ne_nil _ (List.cons_ne_nil i [])),
      rowAt_cons, Option.bind_assoc]
    exact Option.bind_congr fun inner _ => ih inner

theorem setPath_concat (h : Heap) (cell : Nat) (path : List Int64) (i : Int64) (v : Value) :
    h.setPath cell (path ++ [i]) v =
      (h.rowAt cell path).elim (h, false) fun c => h.setPath c [i] v := by
  induction path generalizing cell with
  | nil => rfl
  | cons j path ih =>
    rw [List.cons_append, setPath_cons (List.append_ne_nil_of_right_ne_nil _ (List.cons_ne_nil i [])),
      rowAt_cons]
    cases h.row? cell j with
    | none => rfl
    | some inner => exact ih inner

theorem rowAt_of_readAt (read : h.readAt cell path = some (.array c)) :
    h.rowAt cell path = some c := by
  rcases List.eq_nil_or_concat path with rfl | ⟨path, i, rfl⟩
  · rw [readAt_nil] at read
    cases read
  · rw [List.concat_eq_append] at read ⊢
    rw [readAt_concat] at read
    obtain ⟨e, leads, read⟩ := Option.bind_eq_some_iff.mp read
    rw [rowAt_concat, leads, Option.bind_some, row?, read]
    rfl

/-- A write succeeds where something can be read, and replaces one element of the row that the path
leads to. -/
theorem setPath_spec (h : Heap) (cell : Nat) (path : List Int64) (v : Value) :
    (h.setPath cell path v = (h, false) ∧ h.readAt cell path = none) ∨
    ∃ front i t a k, path = front ++ [i] ∧ h.rowAt cell front = some t ∧ h.array? t = some a ∧
      a.offset? i = some k ∧ h.setPath cell path v = (h.setArray t (a.put k v), true) := by
  rcases List.eq_nil_or_concat path with rfl | ⟨front, i, rfl⟩
  · exact .inl ⟨rfl, h.readAt_nil cell⟩
  · rw [List.concat_eq_append, setPath_concat, readAt_concat]
    cases leads : h.rowAt cell front with
    | none => exact .inl ⟨rfl, rfl⟩
    | some t =>
      rw [Option.bind_some, Option.elim_some, setPath]
      cases found : h.array? t with
      | none => exact .inl ⟨rfl, rfl⟩
      | some a =>
        rw [Option.bind_some, Option.bind_some]
        cases place : a.offset? i with
        | none => exact .inl ⟨rfl, by rw [ArrayCell.get?, place, Option.bind_none]⟩
        | some k =>
          refine .inr ⟨front, i, t, a, k, rfl, leads, found, place, ?_⟩
          dsimp only
          rw [modifyArray_eq found]

namespace Unshared

variable (unshared : h.Unshared cell)

include unshared

theorem rowAt_inj (first : h.rowAt cell p = some c) (second : h.rowAt cell q = some c) : p = q := by
  -- The array itself lies nowhere inside, so a path that leads to it is empty.
  have start : ∀ {path i}, h.rowAt cell (path ++ [i]) ≠ some cell := by
    intro path i leads
    obtain ⟨e, a, k, leads, found, -, item⟩ := exists_of_rowAt_concat leads
    exact unshared.root e (reaches_of_rowAt leads) ⟨a, found, Array.mem_of_getElem? item⟩
  induction p using List.reverseRecOn generalizing c q with
  | nil =>
    obtain rfl := Option.some.inj first
    rcases List.eq_nil_or_concat q with rfl | ⟨q, j, rfl⟩
    · rfl
    · exact absurd (List.concat_eq_append ▸ second) start
  | append_singleton p i ih =>
    rcases List.eq_nil_or_concat q with rfl | ⟨q, j, rfl⟩
    · obtain rfl := Option.some.inj second
      exact absurd first start
    · rw [List.concat_eq_append] at second ⊢
      obtain ⟨e, a, k, leads, found, place, item⟩ := exists_of_rowAt_concat first
      obtain ⟨e', a', k', leads', found', place', item'⟩ := exists_of_rowAt_concat second
      obtain ⟨rfl, rfl⟩ := unshared.place e e' k k' c (reaches_of_rowAt leads)
        (reaches_of_rowAt leads') ⟨a, found, item⟩ ⟨a', found', item'⟩
      obtain rfl := Option.some.inj (found.symm.trans found')
      rw [ih leads leads', ArrayCell.offset?_inj place place']

theorem prefix_of_reaches (outer : h.rowAt cell q = some d) (inner : h.rowAt cell p = some c)
    (reaches : ReflTransGen h.Element d c) : q <+: p := by
  induction reaches generalizing p with
  | refl => exact unshared.rowAt_inj outer inner ▸ List.prefix_rfl
  | @tail b c before element ih =>
    have within := (reaches_of_rowAt outer).trans before
    rcases List.eq_nil_or_concat p with rfl | ⟨p, i, rfl⟩
    · obtain rfl := Option.some.inj inner
      exact absurd element (unshared.root b within)
    · rw [List.concat_eq_append] at inner
      obtain ⟨e, a, k, leads, found, -, item⟩ := exists_of_rowAt_concat inner
      obtain ⟨k', holds⟩ := element.holds
      obtain ⟨rfl, -⟩ := unshared.place e b k k' c (reaches_of_rowAt leads) within ⟨a, found, item⟩
        holds
      rw [List.concat_eq_append]
      exact (ih leads).trans (List.prefix_append p [i])

end Unshared

end Heap
end ServerScript
