import ServerScript.Proofs.ArrayWriting

/-! Arrays that have arrays in common. Two arrays share if some array is reached from both of them
through elements; what is written through one of them may then be seen through the other. A store
evolves if no two of its arrays come to share: new arrays may have old ones as elements, but an old
array gets only new ones and those that it has inside anyway. -/
namespace ServerScript

open Relation

namespace Heap

/-- An array is reached from two others, which may be the same. -/
def Shares (h : Heap) (a b : Nat) : Prop :=
  ∃ c, ReflTransGen h.Element a c ∧ ReflTransGen h.Element b c

/-- A store with as many cells or more, in which no two old arrays share that did not. Nothing is
said of the arrays of a set. -/
structure Evolves (S : Nat → Prop) (h h' : Heap) : Prop where
  size : h.arrays.size ≤ h'.arrays.size
  shares : ∀ a b, a < h.arrays.size → b < h.arrays.size → ¬S a → ¬S b → h'.Shares a b → h.Shares a b

variable {h h' : Heap} {S : Nat → Prop} {a b c d : Nat}

theorem Shares.symm (shares : h.Shares a b) : h.Shares b a := by
  obtain ⟨c, first, second⟩ := shares
  exact ⟨c, second, first⟩

theorem Shares.mono (shares : h'.Shares a b) (fewer : ∀ c d, h'.Element c d → h.Element c d) :
    h.Shares a b := by
  obtain ⟨c, first, second⟩ := shares
  exact ⟨c, ReflTransGen.mono fewer _ _ first, ReflTransGen.mono fewer _ _ second⟩

theorem element_of_arrays (same : h'.arrays = h.arrays) (element : h'.Element c d) :
    h.Element c d := by
  obtain ⟨a, found, member⟩ := element
  rw [Heap.array?, same] at found
  exact ⟨a, found, member⟩

theorem Closed.reaches (closed : h.Closed) (bound : a < h.arrays.size)
    (reaches : ReflTransGen h.Element a c) : c < h.arrays.size := by
  induction reaches with
  | refl => exact bound
  | tail _ element _ => exact closed _ _ element

theorem mem_of_reaches (closed : ∀ c d, S c → h.Element c d → S d) (member : S a)
    (reaches : ReflTransGen h.Element a c) : S c := by
  induction reaches with
  | refl => exact member
  | tail _ element ih => exact closed _ _ ih element

theorem Builds.reaches_new (builds : h.Builds h') (new : h.arrays.size ≤ a)
    (reaches : ReflTransGen h'.Element a c) : h.arrays.size ≤ c := by
  have step : ∀ c d, h.arrays.size ≤ c → h'.Element c d → h.arrays.size ≤ d :=
    fun c d large element => (builds.new c d large element).1
  exact mem_of_reaches (S := (h.arrays.size ≤ ·)) step new reaches

namespace Evolves

theorem ofFewer (size : h'.arrays.size = h.arrays.size)
    (fewer : ∀ c d, h'.Element c d → h.Element c d) : h.Evolves S h' := by
  refine ⟨Nat.le_of_eq size.symm, fun _ _ _ _ _ _ shares => ?_⟩
  exact shares.mono fewer

theorem ofArrays (same : h'.arrays = h.arrays) : h.Evolves S h' :=
  ofFewer (congrArg Array.size same) fun _ _ => element_of_arrays same

end Evolves

theorem reaches_of_kept (same : ∀ x, ReflTransGen h.Element a x → h'.array? x = h.array? x)
    (reaches : ReflTransGen h'.Element a c) : ReflTransGen h.Element a c := by
  induction reaches with
  | refl => exact .refl
  | tail _ element ih =>
    obtain ⟨content, found, member⟩ := element
    exact ih.tail ⟨content, (same _ ih).symm.trans found, member⟩

theorem reaches_of_old (old : ∀ c, c < h.arrays.size → h'.array? c = h.array? c)
    (closed : h.Closed) (small : a < h.arrays.size) (reaches : ReflTransGen h'.Element a c) :
    ReflTransGen h.Element a c :=
  reaches_of_kept (fun x reaches => old x (closed.reaches small reaches)) reaches

theorem evolves_of_old (size : h.arrays.size ≤ h'.arrays.size)
    (old : ∀ c, c < h.arrays.size → h'.array? c = h.array? c) (closed : h.Closed) :
    h.Evolves S h' := by
  refine ⟨size, fun a b small small' _ _ shares => ?_⟩
  obtain ⟨c, first, second⟩ := shares
  exact ⟨c, reaches_of_old old closed small first, reaches_of_old old closed small' second⟩

theorem Builds.not_shares (builds : h.Builds h') (closed : h.Closed) (old : a < h.arrays.size)
    (new : h.arrays.size ≤ b) : ¬h'.Shares a b := by
  rintro ⟨c, first, second⟩
  have small := closed.reaches old (reaches_of_old builds.old closed old first)
  exact Nat.not_lt_of_le (builds.reaches_new new second) small

/-- An array gets elements out of a set that nothing outside of it refers to. A path in the store
after that stays outside of the set, or it comes through the array. -/
theorem reaches_of_insert {target : Nat} (closed : ∀ c d, S c → h.Element c d → S d)
    (clear : ∀ c d, ¬S c → h.Element c d → ¬S d) (apart : ¬S target)
    (edges : ∀ c d, h'.Element c d → h.Element c d ∨ c = target ∧ S d) (out : ¬S a)
    (reaches : ReflTransGen h'.Element a c) :
    ¬S c ∧ ReflTransGen h.Element a c ∨ S c ∧ ReflTransGen h.Element a target := by
  induction reaches with
  | refl => exact .inl ⟨out, .refl⟩
  | @tail c d _ element ih =>
    rcases edges c d element with element | ⟨rfl, inside⟩
    · rcases ih with ⟨outside, reaches⟩ | ⟨inside, reaches⟩
      · exact .inl ⟨clear c d outside element, reaches.tail element⟩
      · exact .inr ⟨closed c d inside element, reaches⟩
    · rcases ih with ⟨-, reaches⟩ | ⟨-, reaches⟩
      · exact .inr ⟨inside, reaches⟩
      · exact .inr ⟨inside, reaches⟩

theorem evolves_of_insert {target : Nat} (size : h'.arrays.size = h.arrays.size)
    (closed : ∀ c d, S c → h.Element c d → S d) (clear : ∀ c d, ¬S c → h.Element c d → ¬S d)
    (apart : ¬S target) (edges : ∀ c d, h'.Element c d → h.Element c d ∨ c = target ∧ S d) :
    h.Evolves S h' := by
  refine ⟨Nat.le_of_eq size.symm, fun a b _ _ out out' ⟨c, first, second⟩ => ?_⟩
  rcases reaches_of_insert closed clear apart edges out first with
    ⟨outside, first⟩ | ⟨inside, first⟩
  · rcases reaches_of_insert closed clear apart edges out' second with ⟨-, second⟩ | ⟨inside, -⟩
    · exact ⟨c, first, second⟩
    · exact absurd inside outside
  · rcases reaches_of_insert closed clear apart edges out' second with ⟨outside, -⟩ | ⟨-, second⟩
    · exact absurd inside outside
    · exact ⟨target, first, second⟩

/-- An array gets new cells and arrays from inside of it. What is reached then was reached before,
or it is new and reached through the array. -/
theorem reaches_of_reshape {cell : Nat} (closed : h.Closed) (small : cell < h.arrays.size)
    (old : ∀ c d, c < h.arrays.size → c ≠ cell → h'.Element c d → h.Element c d)
    (new : ∀ c d, c = cell ∨ h.arrays.size ≤ c → h'.Element c d →
      TransGen h.Element cell d ∨ h.arrays.size ≤ d)
    (bound : a < h.arrays.size) (reaches : ReflTransGen h'.Element a c) :
    c < h.arrays.size ∧ ReflTransGen h.Element a c ∨
      h.arrays.size ≤ c ∧ ReflTransGen h.Element a cell := by
  have through : ∀ {c d}, ReflTransGen h.Element a cell → c = cell ∨ h.arrays.size ≤ c →
      h'.Element c d → d < h.arrays.size ∧ ReflTransGen h.Element a d ∨
        h.arrays.size ≤ d ∧ ReflTransGen h.Element a cell := by
    intro c d reaches origin element
    rcases new c d origin element with inside | large
    · have inner := inside.to_reflTransGen
      exact .inl ⟨closed.reaches small inner, reaches.trans inner⟩
    · exact .inr ⟨large, reaches⟩
  induction reaches with
  | refl => exact .inl ⟨bound, .refl⟩
  | @tail c d _ element ih =>
    rcases ih with ⟨small', reaches⟩ | ⟨large, reaches⟩
    · by_cases same : c = cell
      · exact through (same ▸ reaches) (.inl same) element
      · have element := old c d small' same element
        exact .inl ⟨closed c d element, reaches.tail element⟩
    · exact through reaches (.inr large) element

theorem evolves_of_reshape {cell : Nat} (closed : h.Closed) (small : cell < h.arrays.size)
    (size : h.arrays.size ≤ h'.arrays.size)
    (old : ∀ c d, c < h.arrays.size → c ≠ cell → h'.Element c d → h.Element c d)
    (new : ∀ c d, c = cell ∨ h.arrays.size ≤ c → h'.Element c d →
      TransGen h.Element cell d ∨ h.arrays.size ≤ d) : h.Evolves S h' := by
  refine ⟨size, fun a b bound bound' _ _ ⟨c, first, second⟩ => ?_⟩
  rcases reaches_of_reshape closed small old new bound first with ⟨known, first⟩ | ⟨fresh, first⟩
  · rcases reaches_of_reshape closed small old new bound' second with ⟨-, second⟩ | ⟨fresh, -⟩
    · exact ⟨c, first, second⟩
    · exact absurd known (Nat.not_lt_of_le fresh)
  · rcases reaches_of_reshape closed small old new bound' second with ⟨known, -⟩ | ⟨-, second⟩
    · exact absurd known (Nat.not_lt_of_le fresh)
    · exact ⟨cell, first, second⟩

theorem Reshapes.evolves_inPlace {content : ArrayCell}
    (reshapes : h.Reshapes (TransGen h.Element c) h') (closed : h.Closed)
    (small : c < h.arrays.size) (items : Reshaped (TransGen h.Element c) h h' content.items) :
    h.Evolves S (h'.setArray c content) := by
  refine evolves_of_reshape closed small ?_ (fun d e old other element => ?_)
    fun d e origin element => ?_
  · rw [size_setArray]
    exact reshapes.size
  · rcases element_setArray element with ⟨-, element⟩ | ⟨same, -⟩
    · exact reshapes.element_of_lt old element
    · exact absurd same other
  · rcases element_setArray element with ⟨other, element⟩ | ⟨-, member⟩
    · exact (reshapes.new d e (origin.resolve_left other) element).imp_right And.left
    · exact (items e member).imp_right And.left

end Heap
end ServerScript
