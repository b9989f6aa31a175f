import ServerScript.Proofs.CivilCalendar

/-! Adding to a date and measuring how far two dates are apart. Months move the count of months
since the year 0, everything else moves the count of seconds since day zero, and a difference is
a difference of these counts in whole units. So the difference between a moment and the one that
is reached from it is the number of units that was added, of either sign, whatever day of a month
was cut off on the way. -/
namespace ServerScript.Calendar

theorem daysInMonth_pos (year : Int) (month : Nat) : 1 ≤ daysInMonth year month := by
  unfold daysInMonth
  repeat' split
  all_goals omega

namespace Moment

/-- A moment on a second of its day that is no leap second. -/
structure Whole (t : Moment) : Prop where
  second_lt : t.second < 86400
  leap : t.leap = false

/-- A moment in a year that is written with four digits, of either sign. -/
def InFourDigitYear (t : Moment) : Prop := -9999 ≤ t.date.year ∧ t.date.year ≤ 9999

instance (t : Moment) : Decidable t.InFourDigitYear := inferInstanceAs (Decidable (_ ∧ _))

def seconds (t : Moment) : Int := t.day * 86400 + t.second

theorem unitsOf_eq (unit : Int) (t : Moment) : unitsOf unit t = t.seconds / unit := rfl

variable {t u : Moment}

theorem Whole.day_eq (whole : t.Whole) : t.day = unitsOf 86400 t := by
  have := whole.second_lt
  unfold unitsOf
  omega

theorem Whole.addSeconds? {delta : Int} (whole : t.Whole) (moved : t.addSeconds? delta = some u) :
    u.Whole ∧ u.seconds = t.seconds + delta := by
  simp only [Moment.addSeconds?, whole.leap, Bool.false_eq_true, false_and, if_false] at moved
  split at moved
  · cases moved
    refine ⟨⟨?_, rfl⟩, ?_⟩
    · dsimp only
      omega
    · dsimp only [seconds]
      omega
  · cases moved

theorem Whole.unitsOf_addSeconds? {amount unit : Int} (whole : t.Whole) (positive : 0 < unit)
    (moved : t.addSeconds? (amount * unit) = some u) :
    unitsOf unit u - unitsOf unit t = amount := by
  rw [unitsOf_eq, unitsOf_eq, (whole.addSeconds? moved).2,
    Int.add_mul_ediv_right _ _ (Int.ne_of_gt positive), add_sub_cancel_left]

theorem Whole.day_addSeconds? {days : Int} (whole : t.Whole)
    (moved : t.addSeconds? (days * 86400) = some u) : u.day - t.day = days := by
  rw [whole.day_eq, (whole.addSeconds? moved).1.day_eq]
  exact whole.unitsOf_addSeconds? (by decide) moved

theorem monthIndex_addMonths? {months : Int} (moved : t.addMonths? months = some u) :
    monthIndex u = monthIndex t + months := by
  have proper := Date.proper_ofNumber t.day
  unfold addMonths? at moved
  dsimp only at moved
  split at moved
  · cases moved
    generalize index_eq : t.date.year * 12 + (t.date.month - 1) + months = index
    have reached : Date.Proper ⟨index / 12, (index % 12).toNat + 1,
        min t.date.day (daysInMonth (index / 12) ((index % 12).toNat + 1))⟩ :=
      ⟨by dsimp only; omega, by dsimp only; omega,
        Nat.le_min.mpr ⟨proper.day_pos, daysInMonth_pos _ _⟩, Nat.min_le_right _ _⟩
    have date := reached.ofNumber_number
    unfold Date.number at date
    unfold monthIndex
    dsimp only [Moment.date] at date index_eq ⊢
    rw [date]
    dsimp only
    omega
  · cases moved

theorem monthIndex_ediv_addMonths? {amount span : Int} (positive : 0 < span)
    (moved : t.addMonths? (amount * span) = some u) :
    monthIndex u / span - monthIndex t / span = amount := by
  rw [monthIndex_addMonths? moved, Int.add_mul_ediv_right _ _ (Int.ne_of_gt positive),
    add_sub_cancel_left]

theorem year_eq (t : Moment) : t.date.year = monthIndex t / 12 := by
  have proper := Date.proper_ofNumber t.day
  have := proper.month_pos
  have := proper.month_le
  unfold monthIndex Moment.date
  omega

theorem InFourDigitYear.weekStart (year : t.InFourDigitYear) :
    weekStart t = .ok (t.day - (t.day + 3) % 7) := by
  obtain ⟨⟨low, high⟩, -⟩ := (Date.proper_ofNumber t.day).inYear_eq
  rw [Date.number_ofNumber] at low high
  obtain ⟨first, last⟩ := year
  have inside : -4000000 ≤ t.day ∧ t.day ≤ 4000000 := by
    unfold daysBefore countedYear Moment.date at *
    omega
  have bounds : minDay ≤ -90000000 ∧ 90000000 ≤ maxDay := by decide
  have start : (weekday t.day : Int) = (t.day + 3) % 7 := by
    unfold weekday
    omega
  have supported : inRange (t.day - (t.day + 3) % 7) = true := by
    simp only [inRange, Bool.and_eq_true, decide_eq_true_eq]
    omega
  simp only [Calendar.weekStart, start, supported, if_true]

end Moment

theorem diff_of_add? {interval : Interval} {amount : Int} {t u : Moment}
    (counted : interval ≠ .weekday) (whole : t.Whole) (start : t.InFourDigitYear)
    (stop : u.InFourDigitYear) (moved : add? interval amount t = some u) :
    diff interval t u = .ok amount := by
  cases interval with
  | year =>
    rw [diff, Moment.year_eq, Moment.year_eq,
      Moment.monthIndex_ediv_addMonths? (by decide) moved]
  | quarter => rw [diff, Moment.monthIndex_ediv_addMonths? (by decide) moved]
  | month => rw [diff, Moment.monthIndex_addMonths? moved, add_sub_cancel_left]
  | dayOfYear => rw [diff, whole.day_addSeconds? moved]
  | day => rw [diff, whole.day_addSeconds? moved]
  | weekday => exact absurd rfl counted
  | week =>
    -- Both weeks start equally long before their days, which are whole weeks apart.
    have inDays : amount * 604800 = amount * 7 * 86400 := by omega
    unfold add? at moved
    rw [inDays] at moved
    have day := whole.day_addSeconds? moved
    have weeks : u.day - (u.day + 3) % 7 - (t.day - (t.day + 3) % 7) = 7 * amount := by omega
    rw [diff, stop.weekStart, start.weekStart]
    change Except.ok (Int.tdiv _ 7) = _
    rw [weeks, Int.mul_tdiv_cancel_left amount (by decide)]
  | hour => rw [diff, whole.unitsOf_addSeconds? (by decide) moved]
  | minute => rw [diff, whole.unitsOf_addSeconds? (by decide) moved]
  | second =>
    have inUnits : t.addSeconds? (amount * 1) = some u := by rwa [Int.mul_one]
    rw [diff, whole.unitsOf_addSeconds? (by decide) inUnits]

/-- The difference of two dates in a unit is the number of units by which one was reached from
the other. -/
theorem difference_inverts_addition {name : String}
    (known : name ∈ ["yyyy", "q", "m", "y", "d", "ww", "h", "n", "s"]) {t u : Moment}
    (amount : Int64) (whole : t.Whole) (start : t.InFourDigitYear) (stop : u.InFourDigitYear)
    (moved : (Interval.ofText? name).bind (add? · amount.toInt t) = some u) :
    (Interval.ofText? name).map (diff · t u) = some (.ok amount.toInt) := by
  obtain ⟨interval, found, moved⟩ := Option.bind_eq_some_iff.mp moved
  have counted : interval ≠ .weekday := by
    rintro rfl
    have apart : ∀ name ∈ ["yyyy", "q", "m", "y", "d", "ww", "h", "n", "s"],
        Interval.ofText? name ≠ some .weekday := by decide
    exact apart name known found
  rw [found, Option.map_some, diff_of_add? counted whole start stop moved]

theorem difference_of_months_and_weeks :
    let noon (year : Int) (month day : Nat) : Moment := ⟨dayNumber year month day, 43200, false⟩
    ((Interval.ofText? "m").bind (add? · 13 (noon 2024 1 31)) = some (noon 2025 2 28) ∧
      (Interval.ofText? "m").map (diff · (noon 2024 1 31) (noon 2025 2 28)) = some (.ok 13)) ∧
    (Interval.ofText? "ww").bind (add? · (-3) (noon 1900 1 6)) = some (noon 1899 12 16) ∧
      (Interval.ofText? "ww").map (diff · (noon 1900 1 6) (noon 1899 12 16)) =
        some (.ok (-3)) := by
  intro noon
  have months : (Interval.ofText? "m").bind (add? · 13 (noon 2024 1 31)) =
      some (noon 2025 2 28) := by decide
  have weeks : (Interval.ofText? "ww").bind (add? · (-3) (noon 1900 1 6)) =
      some (noon 1899 12 16) := by decide
  exact ⟨⟨months, difference_inverts_addition (by decide) 13 ⟨by decide, rfl⟩ (by decide)
      (by decide) months⟩,
    weeks, difference_inverts_addition (by decide) (-3) ⟨by decide, rfl⟩ (by decide)
      (by decide) weeks⟩

end ServerScript.Calendar
