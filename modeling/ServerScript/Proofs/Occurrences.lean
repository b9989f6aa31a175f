import Mathlib.Order.Bounds.Basic
import ServerScript.Text.Search

/-! Occurrences of a text in another one. A text occurs at a position if the characters from there
on are its own characters, both folded as the comparison asks for. A search forwards finds the
first occurrence and a search backwards the last one, and since the occurrences in a reversed text
are the reversed occurrences, each of them is the other one in the mirror. -/
namespace ServerScript.Text

/-- Whether two texts are the same for a comparison. -/
def Matches (mode : CompareMode) (a b : List Char) : Prop :=
  a.map (foldIn mode) = b.map (foldIn mode)

def OccursAt (mode : CompareMode) (needle text : List Char) (i : Nat) : Prop :=
  Matches mode ((text.drop i).take needle.length) needle

variable {mode : CompareMode} {a b needle text : List Char} {i j : Nat}

instance : Decidable (Matches mode a b) := inferInstanceAs (Decidable (_ = _))

instance : Decidable (OccursAt mode needle text i) := inferInstanceAs (Decidable (Matches ..))

namespace Matches

theorem length_eq (same : Matches mode a b) : a.length = b.length := by
  have sizes : (a.map (foldIn mode)).length = (b.map (foldIn mode)).length := by rw [same]
  rwa [List.length_map, List.length_map] at sizes

theorem exists_cons (same : Matches mode a b) (sought : b ≠ []) :
    ∃ c tail, a = c :: tail ∧ b.length - 1 = tail.length := by
  cases a with
  | nil => exact absurd (List.eq_nil_of_length_eq_zero same.length_eq.symm) sought
  | cons c tail => exact ⟨c, tail, rfl, by rw [← same.length_eq]; rfl⟩

theorem reverse (same : Matches mode a b) : Matches mode a.reverse b.reverse := by
  rw [Matches, List.map_reverse, List.map_reverse, same]

theorem eq (same : Matches .binary a b) : a = b := by
  have fold : foldIn .binary = id := rfl
  rwa [Matches, fold, List.map_id, List.map_id] at same

end Matches

theorem startsWith_iff : startsWith mode needle text = true ↔ OccursAt mode needle text 0 := by
  induction needle generalizing text with
  | nil => simp [startsWith, OccursAt, Matches]
  | cons n needle ih =>
    cases text with
    | nil => simp [startsWith, OccursAt, Matches]
    | cons c text =>
      simp only [startsWith, Bool.and_eq_true, beq_iff_eq, ih, OccursAt, Matches, List.drop_zero,
        List.length_cons, List.take_succ_cons, List.map_cons, List.cons.injEq]
      exact and_congr_left' eq_comm

theorem OccursAt.le_length (occurs : OccursAt mode needle text i) (sought : needle ≠ []) :
    i + needle.length ≤ text.length := by
  have size := Matches.length_eq occurs
  have := List.length_pos_iff.mpr sought
  rw [List.length_take, List.length_drop] at size
  omega

theorem occursAt_iff (within : i ≤ text.length) : OccursAt mode needle text i ↔
    ∃ before found after, text = before ++ found ++ after ∧ before.length = i ∧
      Matches mode found needle := by
  constructor
  · intro occurs
    refine ⟨text.take i, (text.drop i).take needle.length, (text.drop i).drop needle.length,
      ?_, List.length_take_of_le within, occurs⟩
    rw [List.append_assoc, List.take_append_drop, List.take_append_drop]
  · rintro ⟨before, found, after, rfl, rfl, same⟩
    rw [OccursAt, List.append_assoc, List.drop_left, ← same.length_eq, List.take_left]
    exact same

theorem OccursAt.reverse (occurs : OccursAt mode needle text i) (sought : needle ≠ []) :
    OccursAt mode needle.reverse text.reverse (text.length - needle.length - i) := by
  have within := occurs.le_length sought
  obtain ⟨before, found, after, rfl, rfl, same⟩ := (occursAt_iff (by omega)).mp occurs
  have size := same.length_eq
  simp only [List.length_append] at within ⊢
  refine (occursAt_iff (by simp; omega)).mpr
    ⟨after.reverse, found.reverse, before.reverse, by simp, ?_, same.reverse⟩
  rw [List.length_reverse]
  omega

theorem occursAt_drop {start : Nat} :
    OccursAt mode needle (text.drop start) i ↔ OccursAt mode needle text (start + i) := by
  rw [OccursAt, OccursAt, List.drop_drop]

theorem occursAt_take {stop : Nat} (sought : needle ≠ []) :
    OccursAt mode needle (text.take stop) i ↔
      OccursAt mode needle text i ∧ i + needle.length ≤ stop := by
  have window (ends : i + needle.length ≤ stop) :
      ((text.take stop).drop i).take needle.length = (text.drop i).take needle.length := by
    rw [List.drop_take, List.take_take, Nat.min_eq_left (by omega)]
  constructor
  · intro occurs
    have ends : i + needle.length ≤ stop :=
      Nat.le_trans (occurs.le_length sought) (List.length_take_le _ _)
    rw [OccursAt, window ends] at occurs
    exact ⟨occurs, ends⟩
  · rintro ⟨occurs, ends⟩
    rw [OccursAt, window ends]
    exact occurs

/-! ### Searching -/

theorem findAt?_cases (mode : CompareMode) (needle text : List Char) (position : Nat) :
    (∃ i, findAt? mode needle position text = some (position + i) ∧
      OccursAt mode needle text i ∧ ∀ j < i, ¬OccursAt mode needle text j) ∨
    findAt? mode needle position text = none ∧ ∀ j ≤ text.length, ¬OccursAt mode needle text j := by
  induction text generalizing position with
  | nil =>
    rw [findAt?]
    split
    · exact .inl ⟨0, rfl, startsWith_iff.mp ‹_›, nofun⟩
    · refine .inr ⟨rfl, fun j within => ?_⟩
      rw [Nat.le_zero.mp within]
      exact mt startsWith_iff.mpr ‹_›
  | cons c text ih =>
    rw [findAt?]
    split
    · exact .inl ⟨0, rfl, startsWith_iff.mp ‹_›, nofun⟩
    · have differs := mt startsWith_iff.mpr ‹_›
      rcases ih (position + 1) with ⟨i, found, occurs, first⟩ | ⟨none, nowhere⟩
      · refine .inl ⟨i + 1, by rw [found, Nat.add_right_comm, Nat.add_assoc], occurs, ?_⟩
        intro j before
        cases j with
        | zero => exact differs
        | succ j => exact first j (Nat.lt_of_succ_lt_succ before)
      · refine .inr ⟨none, fun j within => ?_⟩
        cases j with
        | zero => exact differs
        | succ j => exact nowhere j (Nat.le_of_succ_le_succ within)

theorem findLastAt?_cases (mode : CompareMode) (needle text : List Char) (best : Option Nat)
    (position : Nat) :
    (∃ i, findLastAt? mode needle best position text = some (position + i) ∧
      OccursAt mode needle text i ∧
      ∀ j ≤ text.length, i < j → ¬OccursAt mode needle text j) ∨
    findLastAt? mode needle best position text = best ∧
      ∀ j ≤ text.length, ¬OccursAt mode needle text j := by
  induction text generalizing best position with
  | nil =>
    rw [findLastAt?]
    split
    · refine .inl ⟨0, rfl, startsWith_iff.mp ‹_›, fun j within after => ?_⟩
      exact absurd after (Nat.not_lt.mpr within)
    · refine .inr ⟨rfl, fun j within => ?_⟩
      rw [Nat.le_zero.mp within]
      exact mt startsWith_iff.mpr ‹_›
  | cons c text ih =>
    rw [findLastAt?]
    rcases ih (if startsWith mode needle (c :: text) = true then some position else best)
      (position + 1) with ⟨i, found, occurs, last⟩ | ⟨kept, nowhere⟩
    · refine .inl ⟨i + 1, by rw [found, Nat.add_right_comm, Nat.add_assoc], occurs, ?_⟩
      intro j within after
      cases j with
      | zero => exact absurd after (Nat.not_lt_zero _)
      | succ j => exact last j (Nat.le_of_succ_le_succ within) (Nat.lt_of_succ_lt_succ after)
    · rw [kept]
      split
      · refine .inl ⟨0, rfl, startsWith_iff.mp ‹_›, fun j within after => ?_⟩
        cases j with
        | zero => exact absurd after (Nat.lt_irrefl _)
        | succ j => exact nowhere j (Nat.le_of_succ_le_succ within)
      · refine .inr ⟨rfl, fun j within => ?_⟩
        cases j with
        | zero => exact mt startsWith_iff.mpr ‹_›
        | succ j => exact nowhere j (Nat.le_of_succ_le_succ within)

theorem find?_cases (mode : CompareMode) (text : List Char) (start : Nat) (sought : needle ≠ []) :
    (∃ i, find? mode needle text start = some i ∧ start ≤ i ∧ OccursAt mode needle text i ∧
      ∀ j < i, start ≤ j → ¬OccursAt mode needle text j) ∨
    find? mode needle text start = none ∧ ∀ j, start ≤ j → ¬OccursAt mode needle text j := by
  -- An occurrence behind the start is one in what the search looks at.
  have behind {j : Nat} (after : start ≤ j) (occurs : OccursAt mode needle text j) :
      j - start ≤ (text.drop start).length ∧
        OccursAt mode needle (text.drop start) (j - start) := by
    have within := occurs.le_length sought
    rw [occursAt_drop, Nat.add_sub_cancel' after, List.length_drop]
    exact ⟨by omega, occurs⟩
  rw [find?]
  split
  · rcases findAt?_cases mode needle (text.drop start) start with
      ⟨i, found, occurs, first⟩ | ⟨none, nowhere⟩
    · refine .inl ⟨start + i, found, Nat.le_add_right start i, occursAt_drop.mp occurs, ?_⟩
      intro j before after there
      exact first (j - start) (by omega) (behind after there).2
    · refine .inr ⟨none, fun j after there => ?_⟩
      exact nowhere (j - start) (behind after there).1 (behind after there).2
  · refine .inr ⟨rfl, fun j after there => ?_⟩
    have := there.le_length sought
    have := List.length_pos_iff.mpr sought
    omega

theorem find?_eq_some {start : Nat} (sought : needle ≠ [])
    (found : find? mode needle text start = some i) :
    start ≤ i ∧ OccursAt mode needle text i ∧
      ∀ j < i, start ≤ j → ¬OccursAt mode needle text j := by
  rcases find?_cases mode text start sought with ⟨i', found', first⟩ | ⟨none, -⟩
  · rw [found] at found'
    cases found'
    exact first
  · rw [found] at none
    cases none

theorem find?_eq_none {start : Nat} (sought : needle ≠ [])
    (none : find? mode needle text start = none) :
    ∀ j, start ≤ j → ¬OccursAt mode needle text j := by
  rcases find?_cases mode text start sought with ⟨i, found, -⟩ | ⟨-, nowhere⟩
  · rw [none] at found
    cases found
  · exact nowhere

theorem findLast?_cases (mode : CompareMode) (text : List Char) (stop : Nat)
    (sought : needle ≠ []) :
    (∃ i, findLast? mode needle text stop = some i ∧ OccursAt mode needle text i ∧
      i + needle.length ≤ stop ∧
      ∀ j, i < j → j + needle.length ≤ stop → ¬OccursAt mode needle text j) ∨
    findLast? mode needle text stop = none ∧
      ∀ j, j + needle.length ≤ stop → ¬OccursAt mode needle text j := by
  have inside {j : Nat} (ends : j + needle.length ≤ stop) (occurs : OccursAt mode needle text j) :
      j ≤ (text.take stop).length ∧ OccursAt mode needle (text.take stop) j := by
    have within := occurs.le_length sought
    rw [occursAt_take sought, List.length_take]
    exact ⟨by omega, occurs, ends⟩
  rw [findLast?]
  rcases findLastAt?_cases mode needle (text.take stop) none 0 with
    ⟨i, found, occurs, last⟩ | ⟨none, nowhere⟩
  · obtain ⟨occurs, ends⟩ := (occursAt_take sought).mp occurs
    rw [Nat.zero_add] at found
    refine .inl ⟨i, found, occurs, ends, fun j after ends' there => ?_⟩
    exact last j (inside ends' there).1 after (inside ends' there).2
  · refine .inr ⟨none, fun j ends there => ?_⟩
    exact nowhere j (inside ends there).1 (inside ends there).2

/-! ### Places -/

/-- The places of a text in another one, counted from one. -/
def places (mode : CompareMode) (needle text : List Char) : Set Nat :=
  {p | 1 ≤ p ∧ OccursAt mode needle text (p - 1)}

theorem succ_mem_places : i + 1 ∈ places mode needle text ↔ OccursAt mode needle text i := by
  simp [places]

theorem le_of_mem_places {p : Nat} (member : p ∈ places mode needle text) (sought : needle ≠ []) :
    p + needle.length ≤ text.length + 1 := by
  have := OccursAt.le_length member.2 sought
  have := member.1
  omega

/-- A number tells the first one of some places, or is zero if there is none. -/
def IsFirst (places : Set Nat) (p : Nat) : Prop := IsLeast places p ∨ p = 0 ∧ places = ∅

/-- A number tells the last one of some places, or is zero if there is none. -/
def IsLast (places : Set Nat) (p : Nat) : Prop := IsGreatest places p ∨ p = 0 ∧ places = ∅

theorem eq_zero_iff_of_mem_places {s : Set Nat} {p : Nat} (inside : s ⊆ places mode needle text)
    (told : p ∈ s ∨ p = 0 ∧ s = ∅) : p = 0 ↔ s = ∅ := by
  constructor
  · rintro rfl
    rcases told with member | none
    · exact absurd (inside member).1 (Nat.not_succ_le_zero 0)
    · exact none.2
  · rintro rfl
    exact (told.resolve_left (Set.notMem_empty p)).1

theorem isFirst_find? (mode : CompareMode) (text : List Char) (start : Nat) (sought : needle ≠ []) :
    IsFirst {p ∈ places mode needle text | start < p}
      ((find? mode needle text start).elim 0 (· + 1)) := by
  rcases find?_cases mode text start sought with ⟨i, found, after, occurs, first⟩ | ⟨none, nowhere⟩
  · rw [found]
    refine .inl ⟨⟨succ_mem_places.mpr occurs, Nat.lt_succ_of_le after⟩, ?_⟩
    rintro p ⟨member, later⟩
    by_contra before
    rw [Option.elim_some] at before
    exact first (p - 1) (by omega) (Nat.le_sub_one_of_lt later) member.2
  · rw [none]
    refine .inr ⟨rfl, Set.eq_empty_of_forall_notMem ?_⟩
    rintro p ⟨member, later⟩
    exact nowhere (p - 1) (Nat.le_sub_one_of_lt later) member.2

theorem isLast_findLast? (mode : CompareMode) (text : List Char) (stop : Nat)
    (sought : needle ≠ []) :
    IsLast {p ∈ places mode needle text | p + needle.length ≤ stop + 1}
      ((findLast? mode needle text stop).elim 0 (· + 1)) := by
  -- Places count from one, positions from zero.
  have ends_of_place {p : Nat} (member : p ∈ places mode needle text)
      (ends : p + needle.length ≤ stop + 1) : p - 1 + needle.length ≤ stop := by
    have := member.1
    omega
  rcases findLast?_cases mode text stop sought with
    ⟨i, found, occurs, ends, last⟩ | ⟨none, nowhere⟩
  · rw [found]
    refine .inl ⟨⟨succ_mem_places.mpr occurs, ?_⟩, ?_⟩
    · rw [Option.elim_some]
      omega
    · rintro p ⟨member, ends'⟩
      by_contra after
      rw [Option.elim_some] at after
      exact last (p - 1) (by omega) (ends_of_place member ends') member.2
  · rw [none]
    refine .inr ⟨rfl, Set.eq_empty_of_forall_notMem ?_⟩
    rintro p ⟨member, ends⟩
    exact nowhere (p - 1) (ends_of_place member ends) member.2

/-! ### In the mirror -/

theorem mem_places_reverse {p q : Nat} (member : p ∈ places mode needle text)
    (sought : needle ≠ []) (mirrored : p + q + needle.length = text.length + 2) :
    q ∈ places mode needle.reverse text.reverse := by
  have within := le_of_mem_places member sought
  have reversed := OccursAt.reverse member.2 sought
  have := member.1
  have position : text.length - needle.length - (p - 1) = q - 1 := by omega
  rw [position] at reversed
  exact ⟨by omega, reversed⟩

theorem IsFirst.mirror {p q : Nat} (sought : needle ≠ [])
    (occurs : (places mode needle text).Nonempty)
    (first : IsFirst (places mode needle.reverse text.reverse) q)
    (last : IsLast (places mode needle text) p) : p + q + needle.length = text.length + 2 := by
  have greatest : IsGreatest (places mode needle text) p :=
    last.resolve_right fun none => occurs.ne_empty none.2
  have within := le_of_mem_places greatest.1 sought
  have image := mem_places_reverse (q := text.length + 2 - needle.length - p) greatest.1 sought
    (by omega)
  have least : IsLeast (places mode needle.reverse text.reverse) q :=
    first.resolve_right fun none => Set.Nonempty.ne_empty ⟨_, image⟩ none.2
  have within' := le_of_mem_places least.1 (mt List.reverse_eq_nil_iff.mp sought)
  rw [List.length_reverse, List.length_reverse] at within'
  have preimage := mem_places_reverse (q := text.length + 2 - needle.length - q) least.1
    (mt List.reverse_eq_nil_iff.mp sought) (by simp only [List.length_reverse]; omega)
  rw [List.reverse_reverse, List.reverse_reverse] at preimage
  have := least.2 image
  have := greatest.2 preimage
  omega

end ServerScript.Text
