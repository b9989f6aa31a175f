/-! Sets of code points as lists of inclusive ranges, the form in which the character tables of
this library are written down. -/
namespace ServerScript.Text

abbrev CodeRanges := List (Nat × Nat)

def CodeRanges.holds (ranges : CodeRanges) (code : Nat) : Bool :=
  ranges.any fun range => range.1 ≤ code && code ≤ range.2

theorem CodeRanges.holds_iff (ranges : CodeRanges) (code : Nat) :
    ranges.holds code = true ↔ ∃ range ∈ ranges, range.1 ≤ code ∧ code ≤ range.2 := by
  simp [CodeRanges.holds, List.any_eq_true]

end ServerScript.Text
