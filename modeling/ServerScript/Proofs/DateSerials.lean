import ServerScript.Proofs.YearParts

/-! Dates by year, month and day, each of which may lie outside its usual range. The months and
then the days are counted on from the start of the year, so the date is the one that is reached by
adding months and days to that start, and a date is reached from its own year, month and day. -/
namespace ServerScript

namespace Number

theorem toInt_ofInt_of_small {n : Int} (low : -1000000 ≤ n) (high : n ≤ 1000000) :
    (Int64.ofInt n).toInt = n :=
  toInt_ofInt_of_fits (Int.le_trans (by decide) low) (Int.le_trans high (by decide))

end Number

namespace Calendar

open Number

/-! ### The supported days -/

theorem dayNumber_newYear (year : Int) : dayNumber year 1 1 = daysBefore (year - 1) + 306 := by
  rw [dayNumber_eq]
  rfl

theorem dayNumber_newYear_mono {a b : Int} (le : a ≤ b) : dayNumber a 1 1 ≤ dayNumber b 1 1 := by
  rcases Int.le_iff_eq_or_lt.mp le with rfl | lt
  · exact Int.le_refl _
  · have := daysBefore_lt (a := a - 1) (b := b - 1) (by omega)
    rw [dayNumber_newYear, dayNumber_newYear]
    omega

theorem Date.Proper.number_mem_year {d : Date} (proper : d.Proper) :
    dayNumber d.year 1 1 ≤ d.number ∧ d.number < dayNumber (d.year + 1) 1 1 := by
  obtain ⟨year, month, day⟩ := d
  obtain ⟨month_pos, month_le, day_pos, day_le⟩ := proper
  dsimp only [Date.number] at *
  have ends := daysThroughMonth_eq year month_pos month_le
  have next := daysBefore_succ (year - 1)
  have leap := leapDays_mem (countedYear year month + 1)
  rw [sub_add_cancel] at next
  rw [dayNumber_newYear, dayNumber_newYear, add_sub_cancel_right, dayNumber_eq]
  -- January and February belong to the counted year before.
  by_cases early : month ≤ 2
  · have counted : countedYear year month = year - 1 := if_pos early
    have number : countedMonth month = month + 9 := if_pos early
    rw [counted, sub_add_cancel] at leap
    rw [counted, number, sub_add_cancel] at ends
    rw [counted, number]
    unfold daysBeforeMonth at *
    omega
  · have counted : countedYear year month = year := if_neg early
    have number : countedMonth month = month - 3 := if_neg early
    have := leapDays_mem year
    rw [counted] at leap
    rw [counted, number] at ends
    rw [counted, number]
    unfold daysBeforeMonth at *
    omega

theorem minDay_eq : minDay = dayNumber minYear 1 1 := rfl

theorem maxDay_eq : maxDay + 1 = dayNumber (maxYear + 1) 1 1 := by decide

theorem Date.Proper.inRange_number_iff {d : Date} (proper : d.Proper) :
    inRange d.number = true ↔ minYear ≤ d.year ∧ d.year ≤ maxYear := by
  obtain ⟨starts, ends⟩ := proper.number_mem_year
  have least := minDay_eq
  have most := maxDay_eq
  rw [inRange, Bool.and_eq_true, decide_eq_true_iff, decide_eq_true_iff]
  constructor
  · rintro ⟨low, high⟩
    constructor
    · by_contra early
      have := dayNumber_newYear_mono (a := d.year + 1) (b := minYear) (by omega)
      omega
    · by_contra late
      have := dayNumber_newYear_mono (a := maxYear + 1) (b := d.year) (by omega)
      omega
  · rintro ⟨low, high⟩
    have := dayNumber_newYear_mono low
    have := dayNumber_newYear_mono (a := d.year + 1) (b := maxYear + 1) (by omega)
    omega

theorem year_mem_of_inRange {n : Int} (inside : inRange n = true) :
    minYear ≤ (Date.ofNumber n).year ∧ (Date.ofNumber n).year ≤ maxYear := by
  rw [← (Date.proper_ofNumber n).inRange_number_iff, Date.number_ofNumber]
  exact inside

/-! ### Counting from the start of a year -/

/-- The day reached from the start of a year by counting months and days, both from one. -/
def serialDay (year month day : Int) : Int :=
  let index := year * 12 + (month - 1)
  dayNumber (index / 12) ((index % 12).toNat + 1) 1 + (day - 1)

/-- Counting from a year arrives at a day: the numbers on the way are words, and the month and the
day that are reached are supported. -/
structure Arrives (year month day : Int64) (n : Int) : Prop where
  months : wordMin ≤ year.toInt * 12 ∧ year.toInt * 12 ≤ wordMax
  monthsOn : wordMin ≤ month.toInt - 1
  daysOn : wordMin ≤ day.toInt - 1
  supported : minYear ≤ (year.toInt * 12 + (month.toInt - 1)) / 12 ∧
    (year.toInt * 12 + (month.toInt - 1)) / 12 ≤ maxYear
  inside : inRange n = true
  day_eq : n = serialDay year.toInt month.toInt day.toInt

theorem dateSerial_eq_some_iff {year month day : Int64} {t : Moment} :
    dateSerial year month day = .ok (some t) ↔
      ∃ n, Arrives year month day n ∧ t = .midnight n := by
  constructor
  · intro serial
    unfold dateSerial at serial
    obtain ⟨months, found⟩ : ∃ w, word? (year.toInt * 12) = some w :=
      Option.ne_none_iff_exists'.mp fun none => by simp [none] at serial
    obtain ⟨monthsOn, foundOn⟩ : ∃ w, word? (month.toInt - 1) = some w :=
      Option.ne_none_iff_exists'.mp fun none => by simp [found, none] at serial
    simp only [found, foundOn, toInt_of_word? found, toInt_of_word? foundOn] at serial
    obtain ⟨index, foundIndex⟩ :
        ∃ w, word? (year.toInt * 12 + (month.toInt - 1)) = some w :=
      Option.ne_none_iff_exists'.mp fun none => by simp [none] at serial
    simp only [foundIndex, toInt_of_word? foundIndex] at serial
    split at serial
    · rename_i supported
      obtain ⟨daysOn, foundDays⟩ : ∃ w, word? (day.toInt - 1) = some w :=
        Option.ne_none_iff_exists'.mp fun none => by simp [none] at serial
      simp only [foundDays, toInt_of_word? foundDays] at serial
      split at serial
      · rename_i inside
        cases serial
        exact ⟨_, ⟨exists_word?_iff.mp ⟨_, found⟩, (exists_word?_iff.mp ⟨_, foundOn⟩).1,
          (exists_word?_iff.mp ⟨_, foundDays⟩).1, supported, inside, rfl⟩, rfl⟩
      · cases serial
    · cases serial
  · rintro ⟨n, arrives, rfl⟩
    obtain ⟨months, found⟩ := exists_word?_iff.mpr arrives.months
    obtain ⟨monthsOn, foundOn⟩ := exists_word?_iff.mpr
      ⟨arrives.monthsOn, by have := (toInt_mem month).2; omega⟩
    obtain ⟨daysOn, foundDays⟩ := exists_word?_iff.mpr
      ⟨arrives.daysOn, by have := (toInt_mem day).2; omega⟩
    obtain ⟨index, foundIndex⟩ :
        ∃ w, word? (year.toInt * 12 + (month.toInt - 1)) = some w := by
      have := arrives.supported
      refine exists_word?_iff.mpr ?_
      unfold minYear maxYear wordMin wordMax at *
      omega
    have inside := arrives.inside
    rw [arrives.day_eq, serialDay] at inside
    simp only [dateSerial, found, foundOn, toInt_of_word? found, toInt_of_word? foundOn,
      foundIndex, toInt_of_word? foundIndex, foundDays, toInt_of_word? foundDays]
    rw [if_pos arrives.supported, if_pos inside, arrives.day_eq]
    rfl

theorem serialDay_newYear (year : Int) : serialDay year 1 1 = dayNumber year 1 1 := by
  have index : year * 12 + (1 - 1) = year * 12 := by omega
  have month : ((year * 12 % 12).toNat + 1) = 1 := by omega
  rw [serialDay, index, month, Int.mul_ediv_cancel _ (by decide), sub_self, add_zero]

theorem serialDay_eq_add (year month day : Int) :
    serialDay year month day = serialDay year month 1 + (day - 1) := by
  simp only [serialDay]
  omega

theorem dayNumber_eq_add (year : Int) (month day : Nat) :
    dayNumber year month day = dayNumber year month 1 + (day - 1) := by
  rw [dayNumber_eq, dayNumber_eq]
  omega

theorem inRange_serialDay_one {year month : Int}
    (supported : minYear ≤ (year * 12 + (month - 1)) / 12 ∧
      (year * 12 + (month - 1)) / 12 ≤ maxYear) :
    inRange (serialDay year month 1) = true := by
  have first : serialDay year month 1 = Date.number
      ⟨(year * 12 + (month - 1)) / 12, ((year * 12 + (month - 1)) % 12).toNat + 1, 1⟩ := by
    rw [serialDay, sub_self, add_zero]
    rfl
  have proper : Date.Proper
      ⟨(year * 12 + (month - 1)) / 12, ((year * 12 + (month - 1)) % 12).toNat + 1, 1⟩ :=
    ⟨Nat.le_add_left 1 _, by dsimp only; omega, Nat.le_refl 1, daysInMonth_pos _ _⟩
  rw [first, proper.inRange_number_iff]
  exact supported

theorem Date.Proper.serialDay_eq {d : Date} (proper : d.Proper) :
    serialDay d.year d.month d.day = d.number := by
  have := proper.month_pos
  have := proper.month_le
  have year : (d.year * 12 + ((d.month : Int) - 1)) / 12 = d.year := by omega
  have month : ((d.year * 12 + ((d.month : Int) - 1)) % 12).toNat + 1 = d.month := by omega
  rw [serialDay, year, month, Date.number, ← dayNumber_eq_add]

theorem daysInMonth_le (year : Int) (month : Nat) : daysInMonth year month ≤ 31 := by
  unfold daysInMonth
  repeat' split
  all_goals omega

theorem Date.Proper.arrives {d : Date} (proper : d.Proper) (inside : inRange d.number = true) :
    Arrives (.ofInt d.year) (.ofInt d.month) (.ofInt d.day) d.number := by
  have year := proper.inRange_number_iff.mp inside
  have serial := proper.serialDay_eq
  have month_pos := proper.month_pos
  have month_le := proper.month_le
  have day_le := proper.day_le
  have month_length := daysInMonth_le d.year d.month
  unfold minYear maxYear at year
  have yearWord : (Int64.ofInt d.year).toInt = d.year :=
    toInt_ofInt_of_small (by omega) (by omega)
  have monthWord : (Int64.ofInt d.month).toInt = d.month :=
    toInt_ofInt_of_small (by omega) (by omega)
  have dayWord : (Int64.ofInt d.day).toInt = d.day :=
    toInt_ofInt_of_small (by omega) (by omega)
  have index : (d.year * 12 + ((d.month : Int) - 1)) / 12 = d.year := by omega
  constructor
  · rw [yearWord]
    unfold wordMin wordMax
    omega
  · rw [monthWord]
    unfold wordMin
    omega
  · rw [dayWord]
    unfold wordMin
    omega
  · rw [yearWord, monthWord, index]
    exact year
  · exact inside
  · rw [yearWord, monthWord, dayWord, serial]

theorem eq_of_add?_month {year months : Int} {u : Moment}
    (moved : add? .month months (.midnight (dayNumber year 1 1)) = some u) :
    (minYear ≤ (year * 12 + months) / 12 ∧ (year * 12 + months) / 12 ≤ maxYear) ∧
      u = .midnight (serialDay year (months + 1) 1) := by
  have date : (Moment.midnight (dayNumber year 1 1)).date = ⟨year, 1, 1⟩ :=
    Date.ofNumber_newYear year
  have index : year * 12 + (((1 : Nat) : Int) - 1) + months = year * 12 + months := by omega
  simp only [add?, Moment.addMonths?, date, index] at moved
  split at moved
  · rename_i supported
    cases moved
    refine ⟨supported, ?_⟩
    rw [serialDay, add_sub_cancel_right, sub_self, add_zero,
      Nat.min_eq_left (daysInMonth_pos _ _)]
    rfl
  · cases moved

theorem eq_of_add?_day {n days : Int} {u : Moment}
    (moved : add? .day days (.midnight n) = some u) :
    inRange (n + days) = true ∧ u = .midnight (n + days) := by
  have whole : (0 + days * 86400) / 86400 = days ∧ (0 + days * 86400) % 86400 = 0 := by omega
  simp only [add?, Moment.addSeconds?, Moment.midnight, Bool.false_eq_true, false_and, if_false,
    Int.natCast_zero, whole] at moved
  split at moved
  · cases moved
    exact ⟨‹_›, rfl⟩
  · cases moved

/-- Counting months and days from the start of a year is adding them to it, as far as each step can
be made; and every supported day is counted from the year, month and day of its date. -/
theorem date_serial_normalizes :
    (∀ {year month day : Int64} {first inMonth reached : Moment},
      dateSerial year 1 1 = .ok (some first) →
      add? .month (month.toInt - 1) first = some inMonth →
      add? .day (day.toInt - 1) inMonth = some reached →
      dateSerial year month day = .ok (some reached)) ∧
    ∀ {t : Moment}, inRange t.day = true →
      dateSerial (.ofInt t.date.year) (.ofInt t.date.month) (.ofInt t.date.day) =
        .ok (some (.midnight t.day)) := by
  constructor
  · intro year month day first inMonth reached start months days
    obtain ⟨n, arrives, rfl⟩ := dateSerial_eq_some_iff.mp start
    have newYear : n = dayNumber year.toInt 1 1 :=
      arrives.day_eq.trans (serialDay_newYear year.toInt)
    rw [newYear] at months
    obtain ⟨supported, rfl⟩ := eq_of_add?_month months
    rw [sub_add_cancel] at days
    obtain ⟨inside, rfl⟩ := eq_of_add?_day days
    have first : inRange (serialDay year.toInt month.toInt 1) = true :=
      inRange_serialDay_one supported
    have startYear := arrives.supported
    have one : (1 : Int64).toInt = 1 := rfl
    have span : -100000000 ≤ minDay ∧ maxDay ≤ 100000000 := by decide
    rw [← serialDay_eq_add] at inside ⊢
    refine dateSerial_eq_some_iff.mpr ⟨_, ⟨arrives.months, ?_, ?_, supported, inside, rfl⟩, rfl⟩
    · unfold minYear maxYear wordMin at *
      omega
    · rw [serialDay_eq_add] at inside
      simp only [inRange, Bool.and_eq_true, decide_eq_true_eq] at first inside
      unfold wordMin
      omega
  · intro t inside
    have proper : t.date.Proper := Date.proper_ofNumber t.day
    have number : t.date.number = t.day := Date.number_ofNumber t.day
    rw [← number] at inside
    exact dateSerial_eq_some_iff.mpr ⟨t.day, number ▸ proper.arrives inside, rfl⟩

theorem serial_of_day_before_february :
    let midnight (year : Int) (month day : Nat) : Moment := .midnight (dayNumber year month day)
    let noon : Moment := ⟨dayNumber 2024 2 29, 43200, false⟩
    (dateSerial 2024 1 1 = .ok (some (midnight 2024 1 1)) ∧
      add? .month ((-10 : Int64).toInt - 1) (midnight 2024 1 1) = some (midnight 2023 2 1) ∧
      add? .day ((0 : Int64).toInt - 1) (midnight 2023 2 1) = some (midnight 2023 1 31) ∧
      dateSerial 2024 (-10) 0 = .ok (some (midnight 2023 1 31))) ∧
    inRange noon.day = true ∧
      dateSerial (.ofInt noon.date.year) (.ofInt noon.date.month) (.ofInt noon.date.day) =
        .ok (some (midnight 2024 2 29)) := by
  intro midnight noon
  have start : dateSerial 2024 1 1 = .ok (some (midnight 2024 1 1)) := by
    decide +kernel
  have months : add? .month ((-10 : Int64).toInt - 1) (midnight 2024 1 1) =
      some (midnight 2023 2 1) := by decide
  have days : add? .day ((0 : Int64).toInt - 1) (midnight 2023 2 1) =
      some (midnight 2023 1 31) := by decide
  have inside : inRange noon.day = true := by decide
  exact ⟨⟨start, months, days, date_serial_normalizes.1 start months days⟩, inside,
    date_serial_normalizes.2 inside⟩

end Calendar
end ServerScript
