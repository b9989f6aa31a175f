import Mathlib.Tactic.Common
import ServerScript.Function.Table
import ServerScript.Proofs.SmallForms

/-! How names are folded. A spelling with a capital is written in small letters, and any other is
kept. That is the same but for a spelling without capitals that has a digraph in title case: it is
kept although its small form is another text, so it meets neither the other spellings of its letters
nor a function of the embedding program, which is known by its small form. -/
namespace ServerScript

open Text (isCapital isTitleCase lower)

variable {s t : String}

namespace Name

/-- A spelling that is kept although it is not its own small form. -/
def Spared (spelling : String) : Prop :=
  (∀ c ∈ spelling.toList, isCapital c = false) ∧ ∃ c ∈ spelling.toList, isTitleCase c = true

instance : DecidablePred Spared := fun _ => inferInstanceAs (Decidable (_ ∧ _))

theorem text_ofText (spelling : String) :
    (ofText spelling).text = if Spared spelling then spelling else lower spelling := by
  cases capital : spelling.toList.any isCapital with
  | true =>
    obtain ⟨c, member, isCap⟩ := List.any_eq_true.mp capital
    have folded : ¬Spared spelling := fun spared =>
      Bool.false_ne_true ((spared.1 c member).symm.trans isCap)
    rw [ofText, if_pos capital, if_neg folded]
  | false =>
    have small : ∀ c ∈ spelling.toList, isCapital c = false := by
      simpa using List.any_eq_false.mp capital
    rw [ofText, if_neg (Bool.eq_false_iff.mp capital)]
    split
    · rfl
    · rename_i notSpared
      have untitled : ∀ c ∈ spelling.toList, isTitleCase c = false := fun c member =>
        Bool.eq_false_iff.mpr fun title => notSpared ⟨small, c, member, title⟩
      exact (Text.lower_eq_self fun c member => ⟨small c member, untitled c member⟩).symm

theorem Spared.ne_lower (spared : Spared s) (t : String) : s ≠ lower t := by
  rintro rfl
  obtain ⟨-, c, member, title⟩ := spared
  exact Bool.false_ne_true ((Text.not_isTitleCase_of_mem_lower member).symm.trans title)

theorem text_ofText_eq_lower_iff : (ofText s).text = lower t ↔ ¬Spared s ∧ lower s = lower t := by
  rw [text_ofText]
  split
  · rename_i spared
    exact ⟨fun same => absurd same (spared.ne_lower t), fun folded => absurd spared folded.1⟩
  · rename_i folded
    exact (and_iff_right folded).symm

theorem eq_iff_text_eq {a b : Name} : a = b ↔ a.text = b.text := by
  cases a
  cases b
  exact Iff.of_eq (mk.injEq _ _)

theorem ofText_eq_iff :
    ofText s = ofText t ↔ if Spared s ∨ Spared t then s = t else lower s = lower t := by
  by_cases keptLeft : Spared s
  · rw [if_pos (.inl keptLeft), eq_iff_text_eq, text_ofText s, if_pos keptLeft, text_ofText t]
    split
    · exact Iff.rfl
    · rename_i folded
      exact ⟨fun same => absurd same (keptLeft.ne_lower t),
        fun same => absurd (same ▸ keptLeft) folded⟩
  · rw [eq_comm, eq_iff_text_eq, text_ofText s, if_neg keptLeft, text_ofText_eq_lower_iff]
    by_cases keptRight : Spared t
    · rw [if_pos (.inr keptRight)]
      exact ⟨fun folded => absurd keptRight folded.1,
        fun same => absurd (same ▸ keptRight) keptLeft⟩
    · rw [if_neg (not_or.mpr ⟨keptLeft, keptRight⟩), and_iff_right keptRight, eq_comm]

end Name

namespace Function

theorem native?_register (natives : List Native) (name key : String)
    (run : List Value → Except Stop Value) :
    native? (register natives name run) key =
      if key = lower name then some ⟨lower name, run⟩ else native? natives key := by
  rw [native?, register, List.find?_cons]
  by_cases same : key = lower name
  · rw [if_pos same, same]
    simp
  · have other : (lower name == key) = false := by simpa using Ne.symm same
    rw [if_neg same]
    simp only [other, List.find?_filter, native?]
    congr 1
    funext native
    by_cases found : native.name = key
    · simp [found, same]
    · simp [found]

end Function

/-- Folding writes a name in small letters and takes spellings with one small form for one name,
except for the spellings that are spared. So a name reaches the function of the embedding program
that was added under a spelling with the same small form unless it is spared. -/
theorem folding_spares_title_case (s t : String) :
    ((Name.ofText s).text = lower s ↔ ¬Name.Spared s) ∧
    (Name.ofText s = Name.ofText t ↔
      if Name.Spared s ∨ Name.Spared t then s = t else lower s = lower t) ∧
    ∀ natives run, Function.native? (Function.register natives t run) (Name.ofText s).text =
      if ¬Name.Spared s ∧ lower s = lower t then some ⟨lower t, run⟩
      else Function.native? natives (Name.ofText s).text := by
  refine ⟨?_, Name.ofText_eq_iff, fun natives run => ?_⟩
  · rw [Name.text_ofText_eq_lower_iff, and_iff_left rfl]
  · rw [Function.native?_register]
    exact if_congr Name.text_ofText_eq_lower_iff rfl rfl

/-- A digraph in title case is not the name that its capital and its small letter are, and it misses
the function that was added under it. -/
theorem title_case_digraph_is_spared :
    (Name.ofText "ǅ").text ≠ lower "ǅ" ∧ lower "ǅ" = lower "Ǆ" ∧
      Name.ofText "ǅ" ≠ Name.ofText "Ǆ" ∧
      (Function.native? (Function.register [] "ǅ" fun _ => .ok .empty)
        (Name.ofText "ǅ").text).isNone := by
  decide +kernel

end ServerScript
