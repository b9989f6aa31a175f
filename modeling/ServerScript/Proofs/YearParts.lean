import ServerScript.Proofs.DateIntervals

/-! The place of a date in its year. The quarter, the month, the day and the week of a year are
found in two ways: as a part of the date, and by counting the quarters, months, days and weeks that
have started since New Year. Both agree, weeks included: they start with a Sunday, so the first one
of a year is cut short by the weekday of New Year. -/
namespace ServerScript.Calendar

theorem Date.ofNumber_newYear (year : Int) : ofNumber (dayNumber year 1 1) = ⟨year, 1, 1⟩ := by
  have proper : (⟨year, 1, 1⟩ : Date).Proper :=
    ⟨Nat.le_refl 1, Nat.le_add_left 1 11, Nat.le_refl 1, daysInMonth_pos _ _⟩
  exact proper.ofNumber_number

namespace Moment

def newYear (t : Moment) : Moment := .midnight (dayNumber t.date.year 1 1)

variable {t : Moment}

theorem date_newYear (t : Moment) : t.newYear.date = ⟨t.date.year, 1, 1⟩ :=
  Date.ofNumber_newYear t.date.year

theorem InFourDigitYear.newYear (year : t.InFourDigitYear) : t.newYear.InFourDigitYear := by
  rwa [InFourDigitYear, date_newYear]

theorem dayOfYear_eq (t : Moment) : dayOfYear t.day = t.day - t.newYear.day := rfl

theorem monthIndex_newYear (t : Moment) : monthIndex t.newYear = t.date.year * 12 := by
  unfold monthIndex
  rw [date_newYear]
  dsimp only
  omega

end Moment

theorem weeks_between (first last : Int) :
    last - (last + 3) % 7 - (first - (first + 3) % 7) =
      7 * ((last - first + (first + 3) % 7) / 7) := by
  omega

theorem part_eq_diff_newYear {interval : Interval} {t : Moment}
    (counted : interval ∈ [.quarter, .month, .dayOfYear, .week]) (year : t.InFourDigitYear) :
    diff interval t.newYear t = .ok (part interval t - 1) := by
  have month_pos := (Date.proper_ofNumber t.day).month_pos
  simp only [List.mem_cons, List.not_mem_nil, or_false] at counted
  rcases counted with rfl | rfl | rfl | rfl
  · rw [diff, t.monthIndex_newYear, part]
    unfold monthIndex
    congr 1
    omega
  · rw [diff, t.monthIndex_newYear, part]
    unfold monthIndex
    congr 1
    omega
  · rw [diff, part, t.dayOfYear_eq, add_sub_cancel_right]
  · have weekday_eq : (weekday t.newYear.day : Int) = (t.newYear.day + 3) % 7 := by
      unfold weekday
      omega
    rw [diff, year.weekStart, year.newYear.weekStart]
    change Except.ok (Int.tdiv _ 7) = _
    rw [weeks_between, Int.mul_tdiv_cancel_left _ (by decide), part, t.dayOfYear_eq,
      add_sub_cancel_right, ← weekday_eq]
    rfl

/-- A part of a date is one more than the number of units between New Year and the date. -/
theorem part_counts_from_newYear {name : String} (known : name ∈ ["q", "m", "y", "ww"])
    {t : Moment} (year : t.InFourDigitYear) :
    ∃ interval n, Interval.ofText? name = some interval ∧ diff interval t.newYear t = .ok n ∧
      part interval t = n + 1 := by
  have units : ∀ name ∈ ["q", "m", "y", "ww"],
      ∃ interval ∈ [Interval.quarter, .month, .dayOfYear, .week],
        Interval.ofText? name = some interval := by decide
  obtain ⟨interval, counted, found⟩ := units name known
  exact ⟨interval, part interval t - 1, found, part_eq_diff_newYear counted year,
    (sub_add_cancel _ _).symm⟩

theorem last_sunday_of_2000_counted :
    let t : Moment := ⟨dayNumber 2000 12 31, 86399, false⟩
    ("ww" ∈ ["q", "m", "y", "ww"] ∧ t.InFourDigitYear) ∧
      (∃ interval n, Interval.ofText? "ww" = some interval ∧ diff interval t.newYear t = .ok n ∧
        part interval t = n + 1) ∧ part .week t = 54 := by
  intro t
  have known : "ww" ∈ ["q", "m", "y", "ww"] := by decide
  have year : t.InFourDigitYear := by decide
  exact ⟨⟨known, year⟩, part_counts_from_newYear known year, by decide⟩

end ServerScript.Calendar
