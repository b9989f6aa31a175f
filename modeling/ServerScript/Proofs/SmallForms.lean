import Mathlib.Data.List.Basic
import Mathlib.Tactic.Common
import ServerScript.Text.Case

/-! Small forms of characters and texts. A character that is neither a capital nor a digraph in
title case is its own small form, and no small form holds such a digraph. So a text without capitals
is its own small form exactly if it has none of them. -/
namespace ServerScript.Text

variable {c d : Char} {cs : List Char}

def isTitleCase (c : Char) : Bool := titleCase.holds c.toNat

/-! ### Characters -/

theorem titleCase_of_covers {run : CaseRun} {code : Nat} (member : run ∈ lowerRuns)
    (covers : run.covers code = true) : titleCase.holds (code + run.shift).toNat = false := by
  have apart : ∀ run ∈ lowerRuns, ∀ range ∈ titleCase,
      run.last + run.shift < range.1 ∨ range.2 < run.first + run.shift := by decide +kernel
  have positive : ∀ range ∈ titleCase, 0 < range.1 := by decide
  simp only [CaseRun.covers, Bool.and_eq_true, decide_eq_true_eq] at covers
  rw [Bool.eq_false_iff, ne_eq, CodeRanges.holds_iff]
  rintro ⟨range, held, low, high⟩
  have beside := apart run member range held
  have nonzero := positive range held
  omega

theorem lowerChar_ne_of_isTitleCase (title : isTitleCase c = true) : lowerChar c ≠ [c] := by
  have all : ∀ range ∈ titleCase, range.2 < range.1 + 8 ∧ ∀ k < 8, range.1 + k ≤ range.2 →
      lowerChar (Char.ofNat (range.1 + k)) ≠ [Char.ofNat (range.1 + k)] := by
    decide +kernel
  obtain ⟨range, held, low, high⟩ := (titleCase.holds_iff c.toNat).mp title
  obtain ⟨narrow, others⟩ := all range held
  have code : range.1 + (c.toNat - range.1) = c.toNat := by omega
  have moved := others (c.toNat - range.1) (by omega) (by omega)
  rwa [code, Char.ofNat_toNat] at moved

theorem not_isTitleCase_of_mem_lowerChar (member : d ∈ lowerChar c) : isTitleCase d = false := by
  by_cases ascii : c.toNat < 0x80
  · have lowered : ∀ code < 0x80, isTitleCase (Char.ofNat code).toLower = false := by
      decide +kernel
    rw [lowerChar, if_pos ascii, List.mem_singleton] at member
    rw [member, ← Char.ofNat_toNat c]
    exact lowered c.toNat ascii
  · by_cases dotted : c = dottedCapitalI
    · have all : (lowerChar dottedCapitalI).all (!isTitleCase ·) = true := by decide
      rw [dotted] at member
      simpa using List.all_eq_true.mp all d member
    · rcases lowerChar_cases (Nat.not_lt.mp ascii) dotted with kept | ⟨run, moves, covers, form⟩
      · rw [kept, List.mem_singleton] at member
        rw [member, Bool.eq_false_iff]
        exact fun title => lowerChar_ne_of_isTitleCase title kept
      · rw [form, List.mem_singleton] at member
        rw [isTitleCase, member]
        by_cases valid : (c.toNat + run.shift).toNat.isValidChar
        · rw [Char.ofNat, dif_pos valid]
          exact titleCase_of_covers moves covers
        · rw [Char.ofNat, dif_neg valid]
          decide

theorem lowerChar_eq_self (small : isCapital c = false) (untitled : isTitleCase c = false) :
    lowerChar c = [c] := by
  unfold isCapital at small
  split at small
  · rename_i ascii
    have same : ∀ code < 0x80, (Char.ofNat code).isUpper = false →
        (Char.ofNat code).toLower = Char.ofNat code := by decide +kernel
    have kept := same c.toNat ascii
    rw [Char.ofNat_toNat] at kept
    rw [lowerChar, if_pos ascii, kept small]
  · rw [isTitleCase] at untitled
    rw [Bool.or_eq_false_iff, untitled] at small
    simpa using small.1

/-! ### Texts -/

theorem lowerFrom_eq_self (kept : ∀ c ∈ cs, c ≠ capitalSigma ∧ lowerChar c = [c])
    (before : List Char) : lowerFrom before cs = cs := by
  induction cs generalizing before with
  | nil => rfl
  | cons c cs ih =>
    obtain ⟨⟨plain, same⟩, others⟩ := List.forall_mem_cons.mp kept
    rw [lowerFrom, if_neg plain, same, ih others, List.singleton_append]

theorem lower_eq_self {text : String}
    (plain : ∀ c ∈ text.toList, isCapital c = false ∧ isTitleCase c = false) :
    lower text = text := by
  have kept : ∀ c ∈ text.toList, c ≠ capitalSigma ∧ lowerChar c = [c] := by
    intro c member
    obtain ⟨small, untitled⟩ := plain c member
    refine ⟨?_, lowerChar_eq_self small untitled⟩
    rintro rfl
    exact absurd small (by decide +kernel)
  rw [lower, lowerFrom_eq_self kept, String.ofList_toList]

theorem not_isTitleCase_of_mem_lowerFrom {before : List Char} (member : d ∈ lowerFrom before cs) :
    isTitleCase d = false := by
  induction cs generalizing before with
  | nil => exact absurd member List.not_mem_nil
  | cons c cs ih =>
    rw [lowerFrom, List.mem_append] at member
    rcases member with first | rest
    · split at first
      · -- A sigma has one of two small forms.
        split at first <;>
          · rw [List.mem_singleton.mp first]
            decide
      · exact not_isTitleCase_of_mem_lowerChar first
    · exact ih rest

theorem not_isTitleCase_of_mem_lower {text : String} (member : d ∈ (lower text).toList) :
    isTitleCase d = false := by
  rw [lower, String.toList_ofList] at member
  exact not_isTitleCase_of_mem_lowerFrom member

end ServerScript.Text
