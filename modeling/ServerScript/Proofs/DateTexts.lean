import ServerScript.Proofs.DatePatterns
import ServerScript.Proofs.DateSerials

/-! Dates as texts and back. A moment is written as a date, as a time of day, or as both, and no
other spelling that is understood fits what is written: a pattern with a time needs a colon, which a
date does not have, and a pattern with a date needs a character that no time has. So the first
pattern that fits is the one that was written by, and it gives the moment back. Only a year that
takes five digits without a sign is not understood. -/
namespace ServerScript

namespace Calendar

open Number

variable {d : Date} {t : Moment} {f : Fields} {rest : List Char} {c : Char}

/-! ### What is written -/

theorem toList_dateText (d : Date) :
    (dateText d).toList = Nat.toDigits 10 d.month ++
      '/' :: (Nat.toDigits 10 d.day ++ '/' :: (toString d.year).toList) := by
  simp [dateText]

theorem toList_timeText (t : Moment) :
    (timeText t).toList = Nat.toDigits 10 (hour12 t.hour) ++
      ':' :: ((twoDigits t.minute).toList ++ ':' :: ((twoDigits t.secondOfMinute).toList ++
        [' ', if t.hour < 12 then 'A' else 'P', 'M'])) := by
  by_cases morning : t.hour < 12 <;> simp [timeText, morning]

theorem toList_toString_of_neg {n : Int} (negative : n < 0) :
    (toString n).toList = '-' :: Nat.toDigits 10 n.natAbs := by
  rw [Json.toList_toString, if_pos negative]
  rfl

theorem toList_toString_of_nonneg {n : Int} (positive : 0 ≤ n) :
    (toString n).toList = Nat.toDigits 10 n.natAbs := by
  rw [Json.toList_toString, if_neg (Int.not_lt.mpr positive)]
  rfl

theorem mem_dateText (member : c ∈ (dateText d).toList) :
    isDigit c ∨ c = '/' ∨ c = '-' ∧ d.year < 0 := by
  rw [toList_dateText] at member
  simp only [List.mem_append, List.mem_cons] at member
  rcases member with digit | rfl | digit | rfl | year
  · exact .inl (isDigit_of_mem_toDigits digit)
  · exact .inr (.inl rfl)
  · exact .inl (isDigit_of_mem_toDigits digit)
  · exact .inr (.inl rfl)
  · rcases Int.lt_or_le d.year 0 with negative | positive
    · rw [toList_toString_of_neg negative, List.mem_cons] at year
      rcases year with rfl | digit
      · exact .inr (.inr ⟨rfl, negative⟩)
      · exact .inl (isDigit_of_mem_toDigits digit)
    · rw [toList_toString_of_nonneg positive] at year
      exact .inl (isDigit_of_mem_toDigits year)

theorem minute_lt (t : Moment) : t.minute < 60 := Nat.mod_lt _ (by decide)

theorem secondOfMinute_lt (t : Moment) : t.secondOfMinute < 60 := Nat.mod_lt _ (by decide)

theorem hour12_mem (hour : Nat) : 1 ≤ hour12 hour ∧ hour12 hour ≤ 12 := by
  unfold hour12
  split <;> omega

theorem spells_minute (t : Moment) :
    Spells (twoDigits t.minute).toList t.minute ∧ (twoDigits t.minute).toList.length = 2 := by
  apply spells_twoDigits
  exact Nat.lt_trans (minute_lt t) (by decide)

theorem spells_secondOfMinute (t : Moment) :
    Spells (twoDigits t.secondOfMinute).toList t.secondOfMinute ∧
      (twoDigits t.secondOfMinute).toList.length = 2 := by
  apply spells_twoDigits
  exact Nat.lt_trans (secondOfMinute_lt t) (by decide)

theorem mem_timeText (member : c ∈ (timeText t).toList) :
    isDigit c ∨ c ∈ [':', ' ', 'A', 'P', 'M'] := by
  rw [toList_timeText] at member
  simp only [List.mem_append, List.mem_cons, List.not_mem_nil, or_false] at member
  rcases member with digit | rfl | digit | rfl | digit | rfl | rfl | rfl
  · exact .inl (isDigit_of_mem_toDigits digit)
  · decide
  · exact .inl ((spells_minute t).1.digits.all c digit)
  · decide
  · exact .inl ((spells_secondOfMinute t).1.digits.all c digit)
  · decide
  · split <;> decide
  · decide

theorem last_timeText (t : Moment) : (timeText t).toList.getLast? = some 'M' := by
  simp [toList_timeText, List.getLast?_append, List.getLast?_cons]

/-! ### What is read back -/

theorem year?_toString {year : Int} (low : -1000000 ≤ year) (high : year ≤ 9999)
    (breaks : Breaks rest) : year? ((toString year).toList ++ rest) = some (year, rest) := by
  have spells := spells_toDigits (n := year.natAbs) (by omega)
  rcases Int.lt_or_le year 0 with negative | positive
  · have value : -(year.natAbs : Int) = year := by omega
    rw [toList_toString_of_neg negative, List.cons_append, year?,
      spells.number? (by simp) breaks]
    simp only [Option.map_some, value]
  · have value : (year.natAbs : Int) = year := by omega
    have short : (Nat.toDigits 10 year.natAbs).length ≤ 4 :=
      length_toDigits_le (by decide) (by omega)
    rw [toList_toString_of_nonneg positive, year?_digits spells.digits,
      spells.number? short breaks]
    simp only [Option.map_some, value]

theorem skipBlanks_year (year : Int) :
    skipBlanks ((toString year).toList ++ rest) = (toString year).toList ++ rest := by
  rcases Int.lt_or_le year 0 with negative | positive
  · rw [toList_toString_of_neg negative]
    rfl
  · rw [toList_toString_of_nonneg positive,
      skipBlanks_digits (digits_toDigits _)]

theorem reads_slashDate (proper : d.Proper) (low : -1000000 ≤ d.year) (high : d.year ≤ 9999)
    (breaks : Breaks rest) :
    Reads slashDate f ((dateText d).toList ++ rest)
      { f with year := d.year, month := d.month, day := d.day } rest := by
  have month_le := proper.month_le
  have day_le := Nat.le_trans proper.day_le (daysInMonth_le d.year d.month)
  have stroke {rest : List Char} : Breaks ('/' :: rest) := breaks_cons rfl
  have month (rest : List Char) : Item.month.read? f (Nat.toDigits 10 d.month ++ '/' :: rest) =
      some ({ f with month := d.month }, '/' :: rest) := by
    rw [Item.read?, (spells_toDigits (by omega)).bounded?
      (length_toDigits_le (by decide) (by omega)) ⟨proper.month_pos, month_le⟩ stroke]
    rfl
  have day (f : Fields) (rest : List Char) :
      Item.day.read? f (Nat.toDigits 10 d.day ++ '/' :: rest) =
        some ({ f with day := d.day }, '/' :: rest) := by
    rw [Item.read?, (spells_toDigits (by omega)).bounded?
      (length_toDigits_le (by decide) (by omega)) ⟨proper.day_pos, day_le⟩ stroke]
    rfl
  have year (f : Fields) : Item.year.read? f ((toString d.year).toList ++ rest) =
      some ({ f with year := d.year }, rest) := by
    rw [Item.read?, skipBlanks_year, year?_toString low high breaks]
    rfl
  rw [toList_dateText]
  simp only [List.append_assoc, List.cons_append]
  exact .next (month _) (.past (.next (day _ _) (.past (.next (year _) .done))))

theorem reads_fullTime12 (t : Moment) :
    Reads fullTime12 f (timeText t).toList
      { f with
        hour := hour12 t.hour % 12, minute := t.minute, second := t.secondOfMinute,
        afternoon := some (decide (12 ≤ t.hour)) } [] := by
  have hour_mem := hour12_mem t.hour
  have minute_lt := minute_lt t
  have second_lt := secondOfMinute_lt t
  have colon {rest : List Char} : Breaks (':' :: rest) := breaks_cons rfl
  have hour (rest : List Char) :
      Item.hour12.read? f (Nat.toDigits 10 (hour12 t.hour) ++ ':' :: rest) =
        some ({ f with hour := hour12 t.hour % 12 }, ':' :: rest) := by
    rw [Item.read?, (spells_toDigits (by omega)).bounded?
      (length_toDigits_le (by decide) (by omega)) hour_mem colon]
    rfl
  have minute (f : Fields) (rest : List Char) :
      Item.minute.read? f ((twoDigits t.minute).toList ++ ':' :: rest) =
        some ({ f with minute := t.minute }, ':' :: rest) := by
    rw [Item.read?, (spells_minute t).1.bounded? (spells_minute t).2.le
      ⟨Nat.zero_le _, by omega⟩ colon]
    rfl
  have second (f : Fields) (rest : List Char) :
      Item.second.read? f ((twoDigits t.secondOfMinute).toList ++ ' ' :: rest) =
        some ({ f with second := t.secondOfMinute }, ' ' :: rest) := by
    rw [Item.read?, (spells_secondOfMinute t).1.bounded? (spells_secondOfMinute t).2.le
      ⟨Nat.zero_le _, by omega⟩ (breaks_cons rfl)]
    rfl
  have gap (f : Fields) : Item.gap.read? f [' ', if t.hour < 12 then 'A' else 'P', 'M'] =
      some (f, [if t.hour < 12 then 'A' else 'P', 'M']) := by
    split <;> rfl
  have half (f : Fields) : Item.half.read? f [if t.hour < 12 then 'A' else 'P', 'M'] =
      some ({ f with afternoon := some (decide (12 ≤ t.hour)) }, []) := by
    by_cases morning : t.hour < 12
    · rw [if_pos morning, decide_eq_false (Nat.not_le.mpr morning)]
      rfl
    · rw [if_neg morning, decide_eq_true (Nat.not_lt.mp morning)]
      rfl
  rw [toList_timeText]
  exact .next (hour _) (.past (.next (minute _ _) (.past (.next (second _ _)
    (.next (gap _) (.next (half _) .done))))))

/-! ### Moments -/

theorem Date.valid_iff {d : Date} :
    d.valid = true ↔ d.Proper ∧ minYear ≤ d.year ∧ d.year ≤ maxYear := by
  simp only [Date.valid, Bool.and_eq_true, decide_eq_true_eq]
  constructor
  · rintro ⟨⟨⟨⟨⟨low, high⟩, month_pos⟩, month_le⟩, day_pos⟩, day_le⟩
    exact ⟨⟨month_pos, month_le, day_pos, day_le⟩, low, high⟩
  · rintro ⟨⟨month_pos, month_le, day_pos, day_le⟩, low, high⟩
    exact ⟨⟨⟨⟨⟨low, high⟩, month_pos⟩, month_le⟩, day_pos⟩, day_le⟩

def Moment.shown (t : Moment) : Moment := { t with leap := false }

theorem secondOfDay_eq (second_lt : t.second < 86400) (f : Fields) :
    Fields.secondOfDay { f with
      hour := hour12 t.hour % 12, minute := t.minute, second := t.secondOfMinute,
      afternoon := some (decide (12 ≤ t.hour)) } = t.second := by
  have hour : hour12 t.hour % 12 = t.hour % 12 := by
    unfold hour12
    split <;> omega
  have second : min t.secondOfMinute 59 = t.secondOfMinute :=
    Nat.min_eq_left (Nat.le_of_lt_succ (secondOfMinute_lt t))
  simp only [Fields.secondOfDay, hour, second, Option.some.injEq, decide_eq_true_eq]
  unfold Moment.hour Moment.minute Moment.secondOfMinute
  split <;> omega

theorem secondOfMinute_ne (t : Moment) : (t.secondOfMinute == 60) = false := by
  have := secondOfMinute_lt t
  rw [beq_eq_false_iff_ne]
  omega

theorem findSome?_of_not_reads {patterns : List (List Item)} {cs : List Char}
    (refused : ∀ p ∈ patterns, ∀ g, ¬Reads p {} cs g []) (toMoment : Fields → Option Moment) :
    patterns.findSome? (fun p => (readFields? p {} cs).bind toMoment) = none := by
  rw [List.findSome?_eq_none_iff]
  intro p member
  rw [readFields?_eq_none_iff.mpr (refused p member)]
  rfl

theorem findSome?_of_missing {patterns : List (List Item)} {chars cs : List Char}
    (named : ∀ p ∈ patterns, ∃ item ∈ chars.map Item.char, item ∈ p)
    (missing : ∀ c ∈ chars, c ∉ cs)
    (toMoment : Fields → Option Moment) :
    patterns.findSome? (fun p => (readFields? p {} cs).bind toMoment) = none := by
  refine findSome?_of_not_reads (fun p member g reads => ?_) toMoment
  obtain ⟨item, listed, named⟩ := named p member
  obtain ⟨c, wanted, rfl⟩ := List.mem_map.mp listed
  exact missing c wanted (reads.mem_of_char named)

theorem timeText_lacks : ∀ c ∈ ['/', '-', ','], c ∉ (timeText t).toList := by
  intro c sought member
  have other : ∀ c ∈ ['/', '-', ','], isDigit c = false ∧ c ∉ [':', ' ', 'A', 'P', 'M'] := by
    simp only [List.forall_mem_cons, List.not_mem_nil, false_imp_iff, implies_true]
    decide
  obtain ⟨not_digit, not_mark⟩ := other c sought
  rcases mem_timeText member with digit | mark
  · rw [not_digit] at digit
    cases digit
  · exact not_mark mark

theorem colon_notMem_dateText : ':' ∉ (dateText d).toList := by
  intro member
  rcases mem_dateText member with digit | stroke | ⟨sign, -⟩
  · cases digit
  · cases stroke
  · cases sign

theorem momentOf?_eq (cs : List Char) :
    momentOf? cs =
      ((momentPatterns.findSome? fun p => (readFields? p {} cs).bind Fields.moment?).or
        (datePatterns.findSome? fun p => (readFields? p {} cs).bind Fields.moment?)).or
          (timePatterns.findSome? fun p => (readFields? p {} cs).bind (some ∘ Fields.time)) := by
  simp only [momentOf?, List.findSome?_append, Option.map_eq_bind, Option.orElse_eq_orElse,
    Option.orElse_eq_or]

theorem findSome?_first {p : List Item} {ps : List (List Item)} {cs : List Char} {g : Fields}
    (toMoment : Fields → Option Moment) (reads : Reads p {} cs g []) (fits : toMoment g = some t) :
    (p :: ps).findSome? (fun p => (readFields? p {} cs).bind toMoment) = some t := by
  rw [List.findSome?_cons, readFields?_eq_some_iff.mpr reads, Option.bind_some, fits]

theorem momentOf?_timeText (second_lt : t.second < 86400) :
    momentOf? (timeText t).toList = some ⟨Moment.epoch, t.second, false⟩ := by
  have dated : ∀ p ∈ momentPatterns ++ datePatterns,
      ∃ item ∈ ['/', '-', ','].map Item.char, item ∈ p := by decide
  have lacks : ∀ c ∈ ['/', '-', ','], c ∉ (timeText t).toList := timeText_lacks
  have refused := findSome?_of_missing dated lacks Fields.moment?
  have time := secondOfDay_eq second_lt {}
  rw [momentOf?_eq, ← List.findSome?_append, refused, Option.none_or]
  refine findSome?_first _ (reads_fullTime12 t) ?_
  rw [Function.comp_apply, Fields.time, time, secondOfMinute_ne]

section Read

variable (supported : inRange t.day = true)
include supported

theorem reads_date (year : t.date.year ≤ 9999) (breaks : Breaks rest) :
    Reads slashDate f ((dateText t.date).toList ++ rest)
      { f with year := t.date.year, month := t.date.month, day := t.date.day } rest := by
  have years : minYear ≤ t.date.year ∧ t.date.year ≤ maxYear := year_mem_of_inRange supported
  unfold minYear at years
  exact reads_slashDate (Date.proper_ofNumber t.day) (by omega) year breaks

theorem moment?_date (g : Fields) :
    Fields.moment? { g with year := t.date.year, month := t.date.month, day := t.date.day } =
      some ⟨t.day, g.secondOfDay, g.second == 60⟩ := by
  have number : t.date.number = t.day := Date.number_ofNumber t.day
  have valid : t.date.valid = true :=
    Date.valid_iff.mpr ⟨Date.proper_ofNumber t.day, year_mem_of_inRange supported⟩
  have exists_date : Fields.moment?
      { g with year := t.date.year, month := t.date.month, day := t.date.day } =
        some ⟨t.date.number, g.secondOfDay, g.second == 60⟩ := if_pos valid
  rw [exists_date, number]

theorem momentOf?_dateText (year : t.date.year ≤ 9999) :
    momentOf? (dateText t.date).toList = some (.midnight t.day) := by
  have reads := reads_date (f := {}) supported year breaks_nil
  rw [List.append_nil] at reads
  have timed : ∀ p ∈ momentPatterns, ∃ item ∈ [':'].map Item.char, item ∈ p := by decide
  have timeless : ∀ c ∈ [':'], c ∉ (dateText t.date).toList := by
    rintro c (_ | ⟨_, ⟨⟩⟩)
    exact colon_notMem_dateText
  rw [momentOf?_eq, findSome?_of_missing timed timeless, Option.none_or, datePatterns,
    findSome?_first _ reads (moment?_date supported {})]
  rfl

theorem momentOf?_dateText_timeText (year : t.date.year ≤ 9999) (second_lt : t.second < 86400) :
    momentOf? ((dateText t.date).toList ++ ' ' :: (timeText t).toList) = some t.shown := by
  have gap (g : Fields) : Item.gap.read? g (' ' :: (timeText t).toList) =
      some (g, (timeText t).toList) := by
    rw [Item.read?, skipBlanks_space, toList_timeText, skipBlanks_digits (digits_toDigits _)]
  have reads := (reads_date (f := {}) supported year (breaks_cons rfl)).append
    (.next (gap _) (reads_fullTime12 t))
  have moment := moment?_date supported { ({} : Fields) with
    hour := hour12 t.hour % 12, minute := t.minute, second := t.secondOfMinute,
    afternoon := some (decide (12 ≤ t.hour)) }
  rw [secondOfDay_eq second_lt, secondOfMinute_ne] at moment
  rw [momentOf?_eq, momentPatterns, findSome?_first _ reads moment]
  rfl

end Read

/-! ### Texts -/

theorem Moment.ofText?_eq {text : String} {c : Char} {cs : List Char}
    (written : text.toList = c :: cs) (first : isDigit c)
    (last : ∀ c ∈ text.toList.getLast?, Text.isBlank c = false) :
    ofText? text = momentOf? text.toList := by
  have trimmed : Text.trimBoth Text.isBlank text.toList = text.toList := by
    refine Text.trimBoth_eq_self ?_ last
    rw [written]
    rintro _ ⟨⟩
    exact not_isBlank_of_isDigit first
  rw [ofText?, trimmed, written]

theorem exists_cons_toDigits (n : Nat) (rest : List Char) :
    ∃ c cs, Nat.toDigits 10 n ++ rest = c :: cs ∧ isDigit c := by
  have digits := digits_toDigits n
  obtain ⟨c, ds, written⟩ := List.exists_cons_of_ne_nil digits.ne_nil
  have digit : isDigit c := digits.all c (written ▸ List.mem_cons_self ..)
  exact ⟨c, ds ++ rest, by rw [written, List.cons_append], digit⟩

theorem ofText?_dateText (d : Date) :
    Moment.ofText? (dateText d) = momentOf? (dateText d).toList := by
  obtain ⟨c, cs, written, digit⟩ := exists_cons_toDigits d.month _
  refine Moment.ofText?_eq ((toList_dateText d).trans written) digit fun c last => ?_
  rcases mem_dateText (List.mem_of_getLast? last) with digit | rfl | ⟨rfl, -⟩
  · exact not_isBlank_of_isDigit digit
  · decide
  · decide

theorem ofText?_timeText (t : Moment) :
    Moment.ofText? (timeText t) = momentOf? (timeText t).toList := by
  obtain ⟨c, cs, written, digit⟩ := exists_cons_toDigits (hour12 t.hour) _
  refine Moment.ofText?_eq ((toList_timeText t).trans written) digit ?_
  rw [last_timeText]
  rintro _ ⟨⟩
  decide

theorem ofText?_dateText_timeText (d : Date) (t : Moment) :
    Moment.ofText? (dateText d ++ " " ++ timeText t) =
      momentOf? ((dateText d).toList ++ ' ' :: (timeText t).toList) := by
  have both : (dateText d ++ " " ++ timeText t).toList =
      (dateText d).toList ++ ' ' :: (timeText t).toList := by simp
  obtain ⟨c, cs, written, digit⟩ := exists_cons_toDigits d.month _
  rw [← both]
  refine Moment.ofText?_eq (Eq.trans ?_ written) digit ?_
  · rw [both, toList_dateText, List.append_assoc]
  · rw [both, List.getLast?_append, List.getLast?_cons, last_timeText]
    rintro _ ⟨⟩
    decide

theorem ofText?_text (supported : inRange t.day = true) (year : t.date.year ≤ 9999)
    (second_lt : t.second < 86400) : Moment.ofText? t.text = some t.shown := by
  rw [Moment.text]
  split
  · rename_i midnight
    simp only [Moment.isMidnight, Bool.and_eq_true, beq_iff_eq, Bool.not_eq_true'] at midnight
    rw [ofText?_dateText, momentOf?_dateText supported year, Moment.shown, Moment.midnight,
      midnight.1]
  · split
    · rename_i epoch
      rw [ofText?_timeText, momentOf?_timeText second_lt, Moment.shown, epoch]
    · rw [ofText?_dateText_timeText, momentOf?_dateText_timeText supported year second_lt]

/-- What a moment in a year of four digits shows is read back as that moment. -/
theorem text_reads_back {t : Moment} (whole : t.Whole) (year : t.InFourDigitYear) :
    Moment.ofText? t.text = some t := by
  have supported : inRange t.day = true := by
    rw [← Date.number_ofNumber t.day, (Date.proper_ofNumber t.day).inRange_number_iff]
    exact ⟨Int.le_trans (by decide) year.1, Int.le_trans year.2 (by decide)⟩
  have shown : t.shown = t := by rw [Moment.shown, ← whole.leap]
  rw [ofText?_text supported year.2 whole.second_lt, shown]

theorem written_forms_read_back :
    let before : Moment := ⟨dayNumber (-44) 3 15, 43207, false⟩
    let midnight : Moment := ⟨dayNumber 2000 2 29, 0, false⟩
    let bare : Moment := ⟨dayNumber 1899 12 30, 59, false⟩
    (before.Whole ∧ before.InFourDigitYear ∧ before.text = "3/15/-44 12:00:07 PM" ∧
      Moment.ofText? before.text = some before) ∧
    (midnight.Whole ∧ midnight.InFourDigitYear ∧ midnight.text = "2/29/2000" ∧
      Moment.ofText? midnight.text = some midnight) ∧
    bare.Whole ∧ bare.InFourDigitYear ∧ bare.text = "12:00:59 AM" ∧
      Moment.ofText? bare.text = some bare := by
  intro before midnight bare
  have noon : before.Whole := ⟨by decide, rfl⟩
  have day : midnight.Whole := ⟨by decide, rfl⟩
  have time : bare.Whole := ⟨by decide, rfl⟩
  have ancient : before.InFourDigitYear := by decide
  have leap : midnight.InFourDigitYear := by decide
  have zero : bare.InFourDigitYear := by decide
  exact ⟨⟨noon, ancient, by decide, text_reads_back noon ancient⟩,
    ⟨day, leap, by decide, text_reads_back day leap⟩,
    time, zero, by decide, text_reads_back time zero⟩

/-! ### Years of five digits -/

theorem Reads.gap {items : List Item} {cs left : List Char} {g : Fields}
    (reads : Reads (.gap :: items) f cs g left) : Reads items f (skipBlanks cs) g left := by
  obtain ⟨h, rest, first, later⟩ := reads_cons_iff.mp reads
  cases first
  exact later

theorem Reads.strokes {a b c : Item} {items : List Item} {u v w : Nat}
    {as bs cs left : List Char} {g : Fields}
    (reads : Reads (a :: .char '/' :: b :: .char '/' :: c :: items) f
      (as ++ '/' :: (bs ++ '/' :: (cs ++ rest))) g left)
    (a_width : a.width? = some u) (b_width : b.width? = some v) (c_width : c.width? = some w)
    (as_digits : Digits as) (as_fits : as.length ≤ u) (bs_digits : Digits bs)
    (bs_fits : bs.length ≤ v) (cs_digits : Digits cs) (breaks : Breaks rest) :
    ∃ h, Reads items h (cs.drop w ++ rest) g left := by
  obtain ⟨h, reads⟩ := reads.number_char a_width as_digits as_fits rfl
  obtain ⟨h, reads⟩ := reads.number_char b_width bs_digits bs_fits rfl
  exact reads.number c_width cs_digits breaks

theorem exists_hour : ∀ time ∈ timePatterns, ∃ hour ∈ [Item.hour12, .hour24],
    hour.width? = some 2 ∧ time = hour :: .char ':' :: time.drop 2 := by
  decide

/-- What may follow a date in a pattern: nothing, or a gap and a time of day. -/
def behindDate : List (List Item) := [] :: timePatterns.map (.gap :: ·)

theorem not_reads_behindDate {ds : List Char} {behind : List Item} {g : Fields}
    (member : behind ∈ behindDate) (digits : Digits ds) (breaks : Breaks rest)
    (last : ∀ c ∈ rest.head?, c ≠ ':') : ¬Reads behind f (ds ++ rest) g [] := by
  intro reads
  rcases List.mem_cons.mp member with rfl | timed
  · cases written : ds ++ rest with
    | nil => exact digits.ne_nil (List.append_eq_nil_iff.mp written).1
    | cons =>
      rw [written] at reads
      cases reads
  · obtain ⟨time, inTimes, rfl⟩ := List.mem_map.mp timed
    obtain ⟨hour, -, counts, starts⟩ := exists_hour time inTimes
    have reads := reads.gap
    rw [skipBlanks_digits digits, starts] at reads
    exact not_reads_time counts digits breaks last reads

/-- No pattern reads a date whose year takes five digits: it leaves a digit of the year where the
text has to end or a time has to start. -/
theorem not_reads_late {p : List Item} {g : Fields} (proper : d.Proper) (late : 9999 < d.year)
    (breaks : Breaks rest) (last : ∀ c ∈ rest.head?, c ≠ ':') (missing : ∀ c ∈ ['-', ','], c ∉ rest)
    (member : p ∈ momentPatterns ++ datePatterns ++ timePatterns) :
    ¬Reads p {} ((dateText d).toList ++ rest) g [] := by
  have month_le := proper.month_le
  have day_le := Nat.le_trans proper.day_le (daysInMonth_le d.year d.month)
  have month_short : (Nat.toDigits 10 d.month).length ≤ 2 :=
    length_toDigits_le (by decide) (by omega)
  have day_short : (Nat.toDigits 10 d.day).length ≤ 2 := length_toDigits_le (by decide) (by omega)
  have year_long : 4 < (Nat.toDigits 10 d.year.natAbs).length := by
    have long : ¬d.year.natAbs < 10 ^ 4 := by omega
    rwa [← Nat.length_toDigits_le_iff (by decide) (by decide), Nat.not_le] at long
  have written : (dateText d).toList ++ rest = Nat.toDigits 10 d.month ++
      '/' :: (Nat.toDigits 10 d.day ++ '/' :: (Nat.toDigits 10 d.year.natAbs ++ rest)) := by
    rw [toList_dateText, toList_toString_of_nonneg (by omega)]
    simp only [List.append_assoc, List.cons_append]
  have kinds : ∀ p ∈ momentPatterns ++ datePatterns ++ timePatterns,
      (∃ item ∈ ['-', ','].map Item.char, item ∈ p) ∨ p ∈ timePatterns ∨
        ∃ behind ∈ behindDate, p = slashDate ++ behind ∨ p = yearFirstDate ++ behind := by
    decide
  intro reads
  rcases kinds p member with ⟨item, listed, named⟩ | time | ⟨behind, follows, rfl | rfl⟩
  · obtain ⟨c, sought, rfl⟩ := List.mem_map.mp listed
    rcases List.mem_append.mp (reads.mem_of_char named) with inDate | inRest
    · have other : ∀ c ∈ ['-', ','], isDigit c = false ∧ c ≠ '/' := by
        simp only [List.forall_mem_cons, List.not_mem_nil, false_imp_iff, implies_true]
        decide
      obtain ⟨not_digit, not_stroke⟩ := other c sought
      rcases mem_dateText inDate with digit | stroke | ⟨-, negative⟩
      · rw [not_digit] at digit
        cases digit
      · exact not_stroke stroke
      · omega
    · exact missing c sought inRest
  · obtain ⟨hour, -, counts, starts⟩ := exists_hour p time
    rw [written, starts] at reads
    exact not_reads_time counts (digits_toDigits _) (breaks_cons rfl) (by rintro _ ⟨⟩; decide) reads
  · rw [written] at reads
    obtain ⟨h, reads⟩ := Reads.strokes (w := 4) reads rfl rfl rfl (digits_toDigits _) month_short
      (digits_toDigits _) day_short (digits_toDigits _) breaks
    exact not_reads_behindDate follows ((digits_toDigits _).drop year_long) breaks last reads
  · rw [written] at reads
    obtain ⟨h, reads⟩ := Reads.strokes (w := 2) reads rfl rfl rfl (digits_toDigits _)
      (by omega) (digits_toDigits _) day_short (digits_toDigits _) breaks
    exact not_reads_behindDate follows ((digits_toDigits _).drop (by omega)) breaks last reads

theorem momentOf?_late (proper : d.Proper) (late : 9999 < d.year)
    (breaks : Breaks rest) (last : ∀ c ∈ rest.head?, c ≠ ':')
    (missing : ∀ c ∈ ['-', ','], c ∉ rest) :
    momentOf? ((dateText d).toList ++ rest) = none := by
  have refused (p : List Item) (member : p ∈ momentPatterns ++ datePatterns ++ timePatterns)
      (g : Fields) := not_reads_late (g := g) proper late breaks last missing member
  rw [List.forall_mem_append, List.forall_mem_append] at refused
  obtain ⟨⟨moments, dates⟩, times⟩ := refused
  rw [momentOf?_eq, findSome?_of_not_reads moments, findSome?_of_not_reads dates,
    findSome?_of_not_reads times]
  rfl

theorem ofText?_text_late (late : 9999 < t.date.year) : Moment.ofText? t.text = none := by
  have proper : t.date.Proper := Date.proper_ofNumber t.day
  rw [Moment.text]
  split
  · have refused := momentOf?_late proper late breaks_nil nofun fun _ _ => List.not_mem_nil
    rw [ofText?_dateText]
    rwa [List.append_nil] at refused
  · split
    · rename_i epoch
      have year : (Date.ofNumber Moment.epoch).year = 1899 := by decide
      rw [Moment.date, epoch, year] at late
      cases late
    · rw [ofText?_dateText_timeText]
      refine momentOf?_late proper late (breaks_cons rfl) (by rintro _ ⟨⟩; decide) ?_
      intro c sought member
      rcases List.mem_cons.mp member with rfl | written
      · exact absurd sought (by decide)
      · exact timeText_lacks c (List.mem_cons_of_mem _ sought) written

end Calendar
end ServerScript
