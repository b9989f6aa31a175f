import ServerScript.Proofs.ArrayBuilding

/-! Operations that change arrays in place. An element is written into an array that is reached
through elements, and nothing else changes. `ReDim Preserve` builds new rows, carries old elements
over into them, and puts the result into the old cell: what this cell gets are new cells and arrays
from inside of it, so it does not come to contain itself. -/
namespace ServerScript

open Relation

namespace Heap

variable {h h' : Heap} {a : ArrayCell} {c d target : Nat}

theorem size_setArray (h : Heap) (target : Nat) (a : ArrayCell) :
    (h.setArray target a).arrays.size = h.arrays.size := Array.size_setIfInBounds

theorem array?_setArray_of_ne (h : Heap) (a : ArrayCell) (other : c ≠ target) :
    (h.setArray target a).array? c = h.array? c :=
  Array.getElem?_setIfInBounds_ne (Ne.symm other)

theorem array?_setArray_self (h : Heap) (a : ArrayCell) (bound : target < h.arrays.size) :
    (h.setArray target a).array? target = some a := Array.getElem?_setIfInBounds_self_of_lt bound

theorem element_setArray (element : (h.setArray target a).Element c d) :
    c ≠ target ∧ h.Element c d ∨ c = target ∧ .array d ∈ a.items := by
  by_cases same : c = target
  · subst same
    obtain ⟨b, found, member⟩ := element
    have bound := lt_size_of_array? found
    rw [size_setArray] at bound
    rw [array?_setArray_self h a bound] at found
    exact .inr ⟨rfl, Option.some.inj found ▸ member⟩
  · obtain ⟨b, found, member⟩ := element
    rw [array?_setArray_of_ne h a same] at found
    exact .inl ⟨same, b, found, member⟩

theorem reaches_setArray (a : ArrayCell) (reaches : ReflTransGen h.Element c target) :
    ReflTransGen (h.setArray target a).Element c target := by
  induction reaches using ReflTransGen.head_induction_on with
  | refl => exact .refl
  | @head c d element _ ih =>
    by_cases same : c = target
    · rw [same]
    · obtain ⟨content, known, member⟩ := element
      exact .head ⟨content, (array?_setArray_of_ne h a same).trans known, member⟩ ih

theorem modifyArray_eq (found : h.array? target = some a) (change : ArrayCell → ArrayCell) :
    h.modifyArray target change = h.setArray target (change a) := by
  have bound := lt_size_of_array? found
  have same : h.arrays[target] = a := by
    rw [Heap.array?, Array.getElem?_eq_getElem bound] at found
    exact Option.some.inj found
  rw [modifyArray, setArray]
  congr 1
  refine Array.ext_getElem? fun i => ?_
  rw [Array.getElem?_modify, Array.getElem?_setIfInBounds]
  by_cases here : target = i
  · subst here
    simp [bound, same]
  · simp [here]

theorem Keeps.setArray (keeps : h.Keeps h') (new : h.arrays.size ≤ target) :
    h.Keeps (h'.setArray target a) := by
  refine ⟨?_, ?_, fun c small => ?_⟩
  · exact congrArg (fun g : Heap => { g with arrays := h'.arrays.setIfInBounds target a })
      keeps.rest
  · rw [size_setArray]
    exact keeps.size
  · rw [array?_setArray_of_ne _ _ (Nat.ne_of_lt (Nat.lt_of_lt_of_le small new)), keeps.old c small]

theorem mem_put {v w : Value} {i : Nat} (member : w ∈ (a.put i v).items) : w ∈ a.items ∨ w = v :=
  Array.mem_or_eq_of_mem_setIfInBounds member

theorem element_put (found : h.array? target = some a) {i : Nat} {v : Value}
    (element : (h.setArray target (a.put i v)).Element c d) :
    h.Element c d ∨ c = target ∧ .array d = v := by
  rcases element_setArray element with ⟨-, element⟩ | ⟨rfl, member⟩
  · exact .inl element
  · exact (mem_put member).imp (fun member => ⟨a, found, member⟩) fun same => ⟨rfl, same⟩

theorem mem_of_get? {index : Int64} {v : Value} (found : a.get? index = some v) : v ∈ a.items := by
  obtain ⟨i, -, found⟩ := Option.bind_eq_some_iff.mp found
  exact Array.mem_of_getElem? found

theorem lt_of_offset? {index : Int64} {i : Nat} (place : a.offset? index = some i) :
    i < a.items.size := by
  obtain ⟨n, -, place⟩ := Option.bind_eq_some_iff.mp place
  split at place
  · rename_i range
    obtain rfl := Option.some.inj place
    omega
  · cases place

/-- A write through nested arrays replaces one element of one array that is reached, or does
nothing. -/
theorem setPath_cases (h : Heap) (cell : Nat) (path : List Int64) (v : Value) :
    h.setPath cell path v = (h, false) ∨
    ∃ target a i, ReflTransGen h.Element cell target ∧ h.array? target = some a ∧
      i < a.items.size ∧ h.setPath cell path v = (h.setArray target (a.put i v), true) := by
  induction path generalizing cell with
  | nil => exact .inl rfl
  | cons index rest ih =>
    cases rest with
    | nil =>
      rw [setPath]
      split
      · rename_i i place
        obtain ⟨a, found, place⟩ := Option.bind_eq_some_iff.mp place
        exact .inr ⟨cell, a, i, .refl, found, lt_of_offset? place, by rw [modifyArray_eq found]⟩
      · exact .inl rfl
    | cons next rest =>
      rw [setPath]
      split
      · rename_i inner place
        obtain ⟨b, known, place⟩ := Option.bind_eq_some_iff.mp place
        obtain done | ⟨target, a, i, reaches, found⟩ := ih inner
        · exact .inl done
        · have first : h.Element cell inner := ⟨b, known, mem_of_get? place⟩
          exact .inr ⟨target, a, i, .head first reaches, found⟩
      · exact .inl rfl

theorem size_setPath (h : Heap) (cell : Nat) (path : List Int64) (v : Value) :
    (h.setPath cell path v).1.arrays.size = h.arrays.size := by
  obtain done | ⟨target, a, i, -, -, -, done⟩ := h.setPath_cases cell path v
  · rw [done]
  · rw [done, size_setArray]

theorem get?_put {index : Int64} {i : Nat} (place : a.offset? index = some i) (v : Value) :
    (a.put i v).get? index = some v := by
  have same : (a.put i v).offset? index = a.offset? index := by
    simp [ArrayCell.offset?, ArrayCell.put]
  rw [ArrayCell.get?, same, place]
  simp [ArrayCell.put, lt_of_offset? place]

theorem getPath_setPath (acyclic : h.Acyclic) {cell : Nat} {path : List Int64} {v : Value}
    (done : (h.setPath cell path v).2 = true) :
    ((h.setPath cell path v).1.array? cell).bind ((h.setPath cell path v).1.getPath · path) =
      some v := by
  induction path generalizing cell with
  | nil => cases done
  | cons index rest ih =>
    cases rest with
    | nil =>
      rw [setPath] at done ⊢
      split at done
      · rename_i i place
        obtain ⟨a, found, place⟩ := Option.bind_eq_some_iff.mp place
        dsimp only
        rw [modifyArray_eq found, array?_setArray_self _ _ (lt_size_of_array? found)]
        exact get?_put place v
      · cases done
    | cons next rest =>
      rw [setPath] at done ⊢
      split at done
      · rename_i inner place
        obtain ⟨b, known, place⟩ := Option.bind_eq_some_iff.mp place
        have read := ih done
        obtain unchanged | ⟨target, a, i, reaches, found, -, written⟩ :=
          h.setPath_cases inner (next :: rest) v
        · rw [unchanged] at done
          cases done
        · -- The array that is written lies inside, so it is not the outer one.
          have other : cell ≠ target := by
            rintro rfl
            exact acyclic cell (.head' ⟨b, known, mem_of_get? place⟩ reaches)
          rw [written] at read ⊢
          dsimp only at read ⊢
          rw [array?_setArray_of_ne _ _ other, known, Option.bind_some, getPath, place]
          exact read
      · cases done

def mergeRow (resize : Heap → ArrayCell → Except Fault (Heap × ArrayCell))
    (state : Heap × Array Value) : Value × Value → Except Fault (Heap × Array Value)
  | (.array new, .array kept) =>
    match state.1.array? kept with
    | none => .ok (state.1, state.2.push (.array kept))
    | some row => resize state.1 row >>= fun inner =>
      .ok (inner.1.setArray new inner.2, state.2.push (.array new))
  | (_, kept) => .ok (state.1, state.2.push kept)

theorem resizePreserve_succ (depth : Nat) (h : Heap) (old : ArrayCell) (uppers : List Int64) :
    resizePreserve (depth + 1) h old uppers = buildArray old.lower uppers h >>= fun built =>
      (if (uppers.drop 1).isEmpty then .ok (built.1, old.items.extract 0 built.2.items.size)
        else (built.2.items.toList.zip old.items.toList).foldlM
          (mergeRow fun g row => resizePreserve depth g row (uppers.drop 1)) (built.1, #[])) >>=
      fun merged => .ok (merged.1, { built.2 with
        items := merged.2 ++ built.2.items.extract merged.2.size built.2.items.size }) := by
  rw [resizePreserve]
  refine bind_congr fun built => ?_
  dsimp only
  split
  · rfl
  · rfl

theorem mergeRow_cases {resize : Heap → ArrayCell → Except Fault (Heap × ArrayCell)}
    {state state' : Heap × Array Value} {pair : Value × Value}
    (step : mergeRow resize state pair = .ok state') :
    state' = (state.1, state.2.push pair.2) ∨
    ∃ new kept row inner, pair = (.array new, .array kept) ∧ state.1.array? kept = some row ∧
      resize state.1 row = .ok inner ∧
      state' = (inner.1.setArray new inner.2, state.2.push (.array new)) := by
  unfold mergeRow at step
  split at step
  · split at step
    · exact .inl (Except.ok.inj step).symm
    · rename_i new kept _ row known
      obtain ⟨inner, done, step⟩ := exists_of_bind_eq_ok step
      exact .inr ⟨new, kept, row, inner, rfl, known, done, (Except.ok.inj step).symm⟩
  · exact .inl (Except.ok.inj step).symm

theorem resizePreserve_cases {depth : Nat} {old : ArrayCell} {uppers : List Int64}
    {result : Heap × ArrayCell} (resized : resizePreserve (depth + 1) h old uppers = .ok result) :
    ∃ built merged, buildArray old.lower uppers h = .ok built ∧
      (merged = (built.1, old.items.extract 0 built.2.items.size) ∨
        (built.2.items.toList.zip old.items.toList).foldlM
          (mergeRow fun g row => resizePreserve depth g row (uppers.drop 1)) (built.1, #[]) =
            .ok merged) ∧
      result = (merged.1, { built.2 with
        items := merged.2 ++ built.2.items.extract merged.2.size built.2.items.size }) := by
  rw [resizePreserve_succ] at resized
  obtain ⟨built, first, resized⟩ := exists_of_bind_eq_ok resized
  obtain ⟨merged, second, resized⟩ := exists_of_bind_eq_ok resized
  refine ⟨built, merged, first, ?_, (Except.ok.inj resized).symm⟩
  split at second
  · exact .inl (Except.ok.inj second).symm
  · exact .inr second

theorem keeps_mergeRow {resize : Heap → ArrayCell → Except Fault (Heap × ArrayCell)}
    (inner : ∀ {g row result}, resize g row = .ok result → g.Keeps result.1)
    {state state' : Heap × Array Value} {pair : Value × Value} {high : Nat}
    (place : pair.1.Within h.arrays.size high) (keeps : h.Keeps state.1)
    (step : mergeRow resize state pair = .ok state') : h.Keeps state'.1 := by
  obtain rfl | ⟨new, kept, row, result, rfl, -, done, rfl⟩ := mergeRow_cases step
  · exact keeps
  · exact (keeps.trans (inner done)).setArray place.1

theorem keeps_resizePreserve (depth : Nat) {h : Heap} {old : ArrayCell} {uppers : List Int64}
    {result : Heap × ArrayCell} (resized : resizePreserve depth h old uppers = .ok result) :
    h.Keeps result.1 := by
  induction depth generalizing h old uppers result with
  | zero =>
    obtain rfl := Except.ok.inj resized
    exact .refl h
  | succ depth ih =>
    obtain ⟨built, merged, first, second, rfl⟩ := resizePreserve_cases resized
    obtain ⟨builds, rows⟩ := builds_buildArray first
    obtain rfl | second := second
    · exact builds.toKeeps
    · exact foldlM_keeps (I := fun state : Heap × Array Value => h.Keeps state.1)
        (fun _ _ _ member keeps => keeps_mergeRow (fun done => ih done)
          (rows _ (Array.mem_toList_iff.mp (List.of_mem_zip member).1)) keeps) builds.toKeeps second

/-- New cells whose elements are new cells too or come from a set of old ones. -/
structure Reshapes (D : Nat → Prop) (h h' : Heap) : Prop extends h.Keeps h' where
  new : ∀ c d, h.arrays.size ≤ c → h'.Element c d → D d ∨ h.arrays.size ≤ d ∧ d < h'.arrays.size
  founded : h'.Founded

def Reshaped (D : Nat → Prop) (h h' : Heap) (items : Array Value) : Prop :=
  ∀ d, .array d ∈ items → D d ∨ h.arrays.size ≤ d ∧ d < h'.arrays.size

section

variable {D : Nat → Prop} {g g' : Heap}

theorem Reshapes.closed (reshapes : h.Reshapes D h') (below : ∀ d, D d → d < h.arrays.size)
    (closed : h.Closed) : h'.Closed := by
  intro c d element
  by_cases small : c < h.arrays.size
  · exact Nat.lt_of_lt_of_le (closed c d (reshapes.element_of_lt small element)) reshapes.size
  · rcases reshapes.new c d (Nat.le_of_not_lt small) element with inside | ⟨-, high⟩
    · exact Nat.lt_of_lt_of_le (below d inside) reshapes.size
    · exact high

theorem Reshaped.push {items : Array Value} {v : Value} (before : Reshaped D h h' items)
    (last : ∀ d, v = .array d → D d ∨ h.arrays.size ≤ d ∧ d < h'.arrays.size) :
    Reshaped D h h' (items.push v) := by
  intro d member
  rcases Array.mem_push.mp member with member | same
  · exact before d member
  · exact last d same.symm

theorem Reshaped.mono {items : Array Value} (before : Reshaped D h g items)
    (size : g.arrays.size ≤ g'.arrays.size) : Reshaped D h g' items := by
  intro d member
  refine (before d member).imp_right fun bounds => ?_
  exact ⟨bounds.1, Nat.lt_of_lt_of_le bounds.2 size⟩

theorem Builds.reshapes (builds : h.Builds h') (founded : h.Founded) (closed : h.Closed) :
    h.Reshapes D h' := by
  refine ⟨builds.toKeeps, fun c d large element => .inr ?_, builds.founded founded closed⟩
  obtain ⟨low, high⟩ := builds.new c d large element
  exact ⟨low, Nat.lt_trans high element.lt_size⟩

theorem Reshapes.setArray (before : h.Reshapes D g) (after : g.Reshapes D g')
    (below : ∀ d, D d → d < h.arrays.size) (inside : ∀ c d, D c → h.Element c d → D d)
    (low : h.arrays.size ≤ target) (high : target < g.arrays.size)
    (items : Reshaped D g g' a.items) : h.Reshapes D (g'.setArray target a) := by
  have keeps := before.toKeeps.trans after.toKeeps
  have within : ∀ d, D d ∨ g.arrays.size ≤ d ∧ d < g'.arrays.size →
      D d ∨ h.arrays.size ≤ d ∧ d < (g'.setArray target a).arrays.size := by
    rintro d (inside | ⟨low, high⟩)
    · exact .inl inside
    · rw [size_setArray]
      exact .inr ⟨Nat.le_trans before.size low, high⟩
  refine ⟨keeps.setArray low, fun c d large element => ?_, ?_⟩
  · rcases element_setArray element with ⟨-, element⟩ | ⟨-, member⟩
    · by_cases early : c < g.arrays.size
      · refine (before.new c d large (after.element_of_lt early element)).imp_right fun bounds => ?_
        rw [size_setArray]
        exact ⟨bounds.1, Nat.lt_of_lt_of_le bounds.2 after.size⟩
      · exact within d (after.new c d (Nat.le_of_not_lt early) element)
    · exact within d (items d member)
  · -- The rows built later and the old arrays form a closed set without the row itself.
    refine after.founded.insert target (fun d => D d ∨ g.arrays.size ≤ d)
      (fun c d member element => ?_) ?_ fun c d element => ?_
    · rcases member with old | late
      · exact .inl (inside c d old (keeps.element_of_lt (below c old) element))
      · exact (after.new c d late element).imp_right And.left
    · rintro (old | late)
      · exact Nat.not_lt_of_le low (below _ old)
      · exact Nat.not_lt_of_le late high
    · rcases element_setArray element with ⟨-, element⟩ | ⟨same, member⟩
      · exact .inl element
      · exact .inr ⟨same, (items d member).imp_right And.left⟩

theorem Closed.lt_of_inside (closed : h.Closed) (inside : TransGen h.Element c d) :
    d < h.arrays.size := by
  obtain ⟨b, -, last⟩ := TransGen.tail'_iff.mp inside
  exact closed b d last

/-- An array whose content is replaced by new cells and arrays from inside of it does not come to
contain itself. -/
theorem Reshapes.founded_inPlace (reshapes : h.Reshapes (TransGen h.Element c) h')
    (closed : h.Closed) (acyclic : h.Acyclic) (small : c < h.arrays.size)
    (items : Reshaped (TransGen h.Element c) h h' a.items) : (h'.setArray c a).Founded := by
  refine reshapes.founded.insert c (fun d => TransGen h.Element c d ∨ h.arrays.size ≤ d)
    (fun d e member element => ?_) ?_ fun d e element => ?_
  · rcases member with inside | large
    · exact .inl (inside.tail (reshapes.element_of_lt (closed.lt_of_inside inside) element))
    · exact (reshapes.new d e large element).imp_right And.left
  · rintro (inside | large)
    · exact acyclic c inside
    · exact Nat.not_lt_of_le large small
  · rcases element_setArray element with ⟨-, element⟩ | ⟨same, member⟩
    · exact .inl element
    · exact .inr ⟨same, (items e member).imp_right And.left⟩

/-- A stage of the merge: what is built and what is carried over so far is new or comes from the
set. -/
structure Merges (D : Nat → Prop) (h g : Heap) (state : Heap × Array Value) : Prop where
  reshapes : h.Reshapes D state.1
  size : g.arrays.size ≤ state.1.arrays.size
  front : Reshaped D h state.1 state.2

/-- What resizing does to an array whose elements come from a set of arrays. -/
def Resizes (D : Nat → Prop) (resize : Heap → ArrayCell → Except Fault (Heap × ArrayCell)) : Prop :=
  ∀ {h : Heap} {old : ArrayCell} {result : Heap × ArrayCell}, h.Founded → h.Closed →
    (∀ d, D d → d < h.arrays.size) → (∀ c d, D c → h.Element c d → D d) →
    (∀ d, .array d ∈ old.items → D d) → resize h old = .ok result →
    h.Reshapes D result.1 ∧ Reshaped D h result.1 result.2.items

theorem Merges.mergeRow {resize : Heap → ArrayCell → Except Fault (Heap × ArrayCell)}
    {state state' : Heap × Array Value} {pair : Value × Value} (merges : Merges D h g state)
    (resizes : Resizes D resize) (closed : h.Closed) (below : ∀ d, D d → d < h.arrays.size)
    (inside : ∀ c d, D c → h.Element c d → D d)
    (place : pair.1.Within h.arrays.size g.arrays.size) (taken : ∀ d, pair.2 = .array d → D d)
    (step : Heap.mergeRow resize state pair = .ok state') : Merges D h g state' := by
  obtain ⟨reshapes, size, front⟩ := merges
  obtain rfl | ⟨new, kept, row, inner, rfl, known, done, rfl⟩ := mergeRow_cases step
  · exact ⟨reshapes, size, front.push fun d same => .inl (taken d same)⟩
  · obtain ⟨low, high⟩ := place
    have old : D kept := taken kept rfl
    have early : ∀ {c d}, D c → state.1.Element c d → h.Element c d := fun old =>
      reshapes.element_of_lt (below _ old)
    obtain ⟨further, items⟩ := resizes reshapes.founded (reshapes.closed below closed)
      (fun d old => Nat.lt_of_lt_of_le (below d old) reshapes.size)
      (fun c d old element => inside c d old (early old element))
      (fun d member => inside kept d old (early old ⟨row, known, member⟩)) done
    refine ⟨reshapes.setArray further below inside low (Nat.lt_of_lt_of_le high size) items, ?_,
      (front.mono ?_).push fun d same => .inr ?_⟩
    · rw [size_setArray]
      exact Nat.le_trans size further.size
    · rw [size_setArray]
      exact further.size
    · obtain rfl := Value.array.inj same
      rw [size_setArray]
      exact ⟨low, Nat.lt_of_lt_of_le high (Nat.le_trans size further.size)⟩

end

theorem resizes_resizePreserve (D : Nat → Prop) (depth : Nat) (uppers : List Int64) :
    Resizes D fun h old => resizePreserve depth h old uppers := by
  induction depth generalizing uppers with
  | zero =>
    intro h old result founded closed _ _ content resized
    obtain rfl := Except.ok.inj resized
    exact ⟨(Builds.refl h).reshapes founded closed, fun d member => .inl (content d member)⟩
  | succ depth ih =>
    intro h old result founded closed below inside content resized
    obtain ⟨built, merged, first, second, rfl⟩ := resizePreserve_cases resized
    obtain ⟨builds, rows⟩ := builds_buildArray first
    have start : h.Reshapes D built.1 := builds.reshapes founded closed
    have merges : Merges D h built.1 merged := by
      obtain rfl | second := second
      · exact ⟨start, Nat.le_refl _, fun d member => .inl (content d (mem_of_mem_extract member))⟩
      · refine foldlM_keeps (I := Merges D h built.1) (fun state pair state' member merges => ?_)
          ⟨start, Nat.le_refl _, fun d member => absurd member (Array.not_mem_empty _)⟩ second
        obtain ⟨new, kept⟩ := List.of_mem_zip member
        exact merges.mergeRow (ih (uppers.drop 1)) closed below inside
          (rows _ (Array.mem_toList_iff.mp new))
          fun d same => content d (same ▸ Array.mem_toList_iff.mp kept)
    refine ⟨merges.reshapes, fun d member => ?_⟩
    rcases Array.mem_append.mp member with member | member
    · exact merges.front d member
    · obtain ⟨low, high⟩ := rows _ (mem_of_mem_extract member)
      exact .inr ⟨low, Nat.lt_of_lt_of_le high merges.size⟩

end Heap
end ServerScript
