import Mathlib.Data.Fintype.EquivFin
import Mathlib.Data.List.Nodup
import Mathlib.Logic.Relation
import ServerScript.Proofs.Store

/-! Arrays as a graph: an edge leads from an array to each array among its elements. The graph is
founded if following edges always comes to an end; since the store is finite, this says no more
than that no array contains itself. Nesting is then less deep than the number of cells, which is
why functions that follow nested arrays to that depth see all of them. -/
namespace ServerScript

open Relation

namespace Heap

def Element (h : Heap) (outer inner : Nat) : Prop :=
  ∃ a, h.array? outer = some a ∧ .array inner ∈ a.items

def Closed (h : Heap) : Prop := ∀ outer inner, h.Element outer inner → inner < h.arrays.size

/-- No array contains itself, directly or through arrays inside of it. -/
def Acyclic (h : Heap) : Prop := ∀ cell, ¬TransGen h.Element cell cell

/-- Following elements comes to an end. -/
def Founded (h : Heap) : Prop := WellFounded fun inner outer => h.Element outer inner

variable {h h' : Heap} {c d : Nat}

theorem lt_size_of_array? {a : ArrayCell} (found : h.array? c = some a) : c < h.arrays.size :=
  (Array.getElem?_eq_some_iff.mp found).1

theorem exists_array? (bound : c < h.arrays.size) : ∃ a, h.array? c = some a :=
  ⟨_, Array.getElem?_eq_getElem bound⟩

theorem Element.lt_size (element : h.Element c d) : c < h.arrays.size := by
  obtain ⟨a, found, _⟩ := element
  exact lt_size_of_array? found

theorem Founded.acyclic (founded : h.Founded) : h.Acyclic := by
  intro cell
  induction cell using founded.induction with
  | _ cell ih =>
    intro cycle
    obtain ⟨inner, first, back⟩ := TransGen.head'_iff.mp cycle
    exact ih inner first (TransGen.tail' back first)

/-- In a finite store without cycles, following elements comes to an end. -/
theorem Acyclic.founded (acyclic : h.Acyclic) (closed : h.Closed) : h.Founded := by
  let below (i j : Fin h.arrays.size) : Prop := TransGen h.Element j i
  have : IsTrans (Fin h.arrays.size) below := ⟨fun _ _ _ first second => second.trans first⟩
  have : Std.Irrefl below := ⟨fun i => acyclic i⟩
  have founded : WellFounded below := Finite.wellFounded_of_trans_of_irrefl below
  have inside : ∀ i : Fin h.arrays.size, Acc (fun inner outer => h.Element outer inner) i.1 := by
    intro i
    induction i using founded.induction with
    | _ i ih =>
      refine ⟨_, fun inner element => ih ⟨inner, closed _ _ element⟩ ?_⟩
      exact TransGen.single element
  refine ⟨fun cell => ⟨_, fun inner element => inside ⟨inner, closed _ _ element⟩⟩⟩

theorem Founded.mono (founded : h.Founded) (fewer : ∀ c d, h'.Element c d → h.Element c d) :
    h'.Founded := Subrelation.wf (fun {_ _} element => fewer _ _ element) founded

/-- An array may get new elements out of a set of cells that is closed under elements and that does
not have the array itself. -/
theorem Founded.insert (founded : h.Founded) (target : Nat) (S : Nat → Prop)
    (closed : ∀ c d, S c → h.Element c d → S d) (apart : ¬S target)
    (edges : ∀ c d, h'.Element c d → h.Element c d ∨ c = target ∧ S d) : h'.Founded := by
  have inside : ∀ c, S c → Acc (fun inner outer => h'.Element outer inner) c := by
    intro c
    induction c using founded.induction with
    | _ c ih =>
      intro member
      refine ⟨_, fun d element => ?_⟩
      rcases edges c d element with element | ⟨rfl, -⟩
      · exact ih d element (closed c d member element)
      · exact absurd member apart
  refine ⟨fun c => ?_⟩
  induction c using founded.induction with
  | _ c ih =>
    refine ⟨_, fun d element => ?_⟩
    rcases edges c d element with element | ⟨-, member⟩
    · exact ih d element
    · exact inside d member

theorem Founded.extend (founded : h.Founded) (bound : Nat)
    (old : ∀ c d, c < bound → h'.Element c d → h.Element c d)
    (new : ∀ c d, bound ≤ c → h'.Element c d → d < c) (closed : ∀ c d, h.Element c d → d < bound) :
    h'.Founded := by
  have before : ∀ c, c < bound → Acc (fun inner outer => h'.Element outer inner) c := by
    intro c
    induction c using founded.induction with
    | _ c ih =>
      intro small
      exact ⟨_, fun d element => ih d (old c d small element) (closed c d (old c d small element))⟩
  refine ⟨fun c => ?_⟩
  induction c using Nat.strong_induction_on with
  | _ c ih =>
    by_cases small : c < bound
    · exact before c small
    · exact ⟨_, fun d element => ih d (new c d (Nat.le_of_not_lt small) element)⟩

def NestsWithin (h : Heap) : Nat → Value → Prop
  | 0, v => ∀ c, v = .array c → h.array? c = none
  | depth + 1, v => ∀ c a, v = .array c → h.array? c = some a → ∀ w ∈ a.items,
    h.NestsWithin depth w

theorem exists_path (depth : Nat) {v : Value} (deep : ¬h.NestsWithin depth v) :
    ∃ c rest, v = .array c ∧ rest.length = depth ∧ (c :: rest).IsChain h.Element ∧
      ∀ d ∈ c :: rest, d < h.arrays.size := by
  induction depth generalizing v with
  | zero =>
    simp only [NestsWithin, not_forall] at deep
    obtain ⟨c, rfl, found⟩ := deep
    obtain ⟨a, found⟩ := Option.ne_none_iff_exists'.mp found
    exact ⟨c, [], rfl, rfl, .singleton c, by simpa using lt_size_of_array? found⟩
  | succ depth ih =>
    simp only [NestsWithin, not_forall] at deep
    obtain ⟨c, a, rfl, found, w, member, deep⟩ := deep
    obtain ⟨d, rest, rfl, length, chain, bounded⟩ := ih deep
    exact ⟨c, d :: rest, rfl, by simp [length], .cons_cons ⟨a, found, member⟩ chain,
      List.forall_mem_cons.mpr ⟨lt_size_of_array? found, bounded⟩⟩

theorem length_le_of_isChain {path : List Nat} (chain : path.IsChain h.Element)
    (bounded : ∀ d ∈ path, d < h.arrays.size) (alone : ∀ d ∈ path, ¬TransGen h.Element d d) :
    path.length ≤ h.arrays.size := by
  have later : path.Pairwise (TransGen h.Element) :=
    List.isChain_iff_pairwise.mp (chain.imp fun _ _ => TransGen.single)
  have distinct : path.Nodup := later.imp_of_mem fun {d e} first _ step => by
    rintro rfl
    exact alone d first step
  have few := (distinct.subperm fun d member => List.mem_range.mpr (bounded d member)).length_le
  rwa [List.length_range] at few

/-- Without cycles, nesting is at most as deep as there are cells. -/
theorem Acyclic.nestsWithin (acyclic : h.Acyclic) (v : Value) :
    h.NestsWithin h.arrays.size v := by
  by_contra deep
  obtain ⟨c, rest, -, length, chain, bounded⟩ := exists_path _ deep
  have few := length_le_of_isChain chain bounded fun d _ => acyclic d
  rw [List.length_cons, length] at few
  omega

theorem NestsWithin.mono {depth : Nat} {v : Value} (nests : h.NestsWithin depth v) :
    h.NestsWithin (depth + 1) v := by
  induction depth generalizing v with
  | zero =>
    intro c a same found
    rw [nests c same] at found
    cases found
  | succ depth ih => exact fun c a same found w member => ih (nests c a same found w member)

theorem NestsWithin.of_le {depth depth' : Nat} {v : Value} (nests : h.NestsWithin depth v)
    (le : depth ≤ depth') : h.NestsWithin depth' v := by
  induction le with
  | refl => exact nests
  | step _ ih => exact ih.mono

end Heap
end ServerScript
