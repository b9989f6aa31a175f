import ServerScript.Proofs.DateTexts

/-! The moments that arise. Reading a text, adding to a moment and counting from a year or from
midnight all arrive at a second of a supported day, whatever the texts and numbers are. For a text
that holds because a pattern has a clock of twelve hours with the half of the day, or one of
twenty-four without it. -/
namespace ServerScript.Calendar

variable {item : Item} {items : List Item} {f g : Fields} {cs left : List Char} {t u : Moment}

structure Moment.Regular (t : Moment) : Prop where
  second_lt : t.second < 86400
  supported : inRange t.day = true

/-! ### Texts -/

theorem bounded?_mem {low high n : Nat} (found : bounded? low high cs = some (n, left)) :
    low ≤ n ∧ n ≤ high := by
  unfold bounded? at found
  split at found
  · split at found
    · cases found
      assumption
    · cases found
  · cases found

/-- What a piece may do to the fields of the time. -/
structure Advances (item : Item) (f g : Fields) : Prop where
  minute : g.minute = f.minute ∨ g.minute < 60
  hour : g.hour = f.hour ∨ g.hour < 12 ∨ item = .hour24 ∧ g.hour < 24
  afternoon : g.afternoon = f.afternoon ∨ item = .half

theorem Item.advances (read : item.read? f cs = some (g, left)) : Advances item f g := by
  cases item with
  | gap =>
    cases read
    exact ⟨.inl rfl, .inl rfl, .inl rfl⟩
  | char c =>
    cases cs with
    | nil => cases read
    | cons d rest =>
      simp only [Item.read?] at read
      split at read
      · cases read
        exact ⟨.inl rfl, .inl rfl, .inl rfl⟩
      · cases read
  | half =>
    simp only [Item.read?] at read
    split at read
    · cases read
      exact ⟨.inl rfl, .inl rfl, .inr rfl⟩
    · cases read
      exact ⟨.inl rfl, .inl rfl, .inr rfl⟩
    · cases read
  | year | monthName | month | day | second =>
    obtain ⟨⟨n, rest⟩, found, pair⟩ := Option.map_eq_some_iff.mp read
    cases pair
    exact ⟨.inl rfl, .inl rfl, .inl rfl⟩
  | minute =>
    obtain ⟨⟨n, rest⟩, found, pair⟩ := Option.map_eq_some_iff.mp read
    cases pair
    exact ⟨.inr (Nat.lt_succ_of_le (bounded?_mem found).2), .inl rfl, .inl rfl⟩
  | hour24 =>
    obtain ⟨⟨n, rest⟩, found, pair⟩ := Option.map_eq_some_iff.mp read
    cases pair
    exact ⟨.inl rfl, .inr (.inr ⟨rfl, Nat.lt_succ_of_le (bounded?_mem found).2⟩), .inl rfl⟩
  | hour12 =>
    obtain ⟨⟨n, rest⟩, found, pair⟩ := Option.map_eq_some_iff.mp read
    cases pair
    exact ⟨.inl rfl, .inr (.inl (Nat.mod_lt _ (by decide))), .inl rfl⟩

theorem Reads.keeps {P : Fields → Prop} (reads : Reads items f cs g left)
    (step : ∀ item ∈ items, ∀ {f g : Fields}, Advances item f g → P f → P g) (start : P f) :
    P g := by
  induction reads with
  | done => exact start
  | next first later ih =>
    refine ih (fun item listed => step item (List.mem_cons_of_mem _ listed)) ?_
    exact step _ (List.mem_cons_self ..) (Item.advances first) start

theorem Reads.twelve (reads : Reads items f cs g left) (twelve : Item.hour24 ∉ items)
    (start : f.minute < 60 ∧ f.hour < 12) : g.minute < 60 ∧ g.hour < 12 := by
  refine reads.keeps (P := fun f => f.minute < 60 ∧ f.hour < 12) ?_ start
  rintro item listed f g ⟨minute, hour, -⟩ ⟨minute_lt, hour_lt⟩
  have other : item ≠ .hour24 := ne_of_mem_of_not_mem listed twelve
  constructor
  · omega
  · rcases hour with same | lt | ⟨whole, -⟩
    · omega
    · exact lt
    · exact absurd whole other

theorem Reads.twentyFour (reads : Reads items f cs g left) (whole : Item.half ∉ items)
    (start : f.minute < 60 ∧ f.hour < 24 ∧ f.afternoon = none) :
    g.minute < 60 ∧ g.hour < 24 ∧ g.afternoon = none := by
  refine reads.keeps (P := fun f => f.minute < 60 ∧ f.hour < 24 ∧ f.afternoon = none) ?_ start
  rintro item listed f g ⟨minute, hour, afternoon⟩ ⟨minute_lt, hour_lt, unset⟩
  have other : item ≠ .half := ne_of_mem_of_not_mem listed whole
  refine ⟨by omega, by omega, ?_⟩
  rcases afternoon with same | half
  · exact same.trans unset
  · exact absurd half other

theorem Reads.secondOfDay_lt {p : List Item} (reads : Reads p {} cs g [])
    (member : p ∈ momentPatterns ++ datePatterns ++ timePatterns) : g.secondOfDay < 86400 := by
  have clocks : ∀ p ∈ momentPatterns ++ datePatterns ++ timePatterns,
      Item.hour24 ∉ p ∨ Item.half ∉ p := by decide
  have second := Nat.min_le_right g.second 59
  simp only [Fields.secondOfDay]
  rcases clocks p member with twelve | whole
  · obtain ⟨minute, hour⟩ := reads.twelve twelve (by decide)
    split <;> omega
  · obtain ⟨minute, hour, morning⟩ := reads.twentyFour whole (by decide)
    rw [morning, if_neg (by decide)]
    omega

theorem inRange_number {d : Date} (valid : d.valid = true) : inRange d.number = true := by
  obtain ⟨proper, years⟩ := Date.valid_iff.mp valid
  exact proper.inRange_number_iff.mpr years

theorem regular_of_momentOf? (read : momentOf? cs = some t) : t.Regular := by
  rw [momentOf?_eq, ← List.findSome?_append, Option.or_eq_some_iff] at read
  rcases read with dated | ⟨-, timed⟩
  · obtain ⟨p, member, fits⟩ := List.exists_of_findSome?_eq_some dated
    obtain ⟨g, reads, moment⟩ := Option.bind_eq_some_iff.mp fits
    have lt := (readFields?_eq_some_iff.mp reads).secondOfDay_lt (List.mem_append_left _ member)
    simp only [Fields.moment?] at moment
    split at moment
    · cases moment
      exact ⟨lt, inRange_number ‹_›⟩
    · cases moment
  · obtain ⟨p, member, fits⟩ := List.exists_of_findSome?_eq_some timed
    obtain ⟨g, reads, moment⟩ := Option.bind_eq_some_iff.mp fits
    have lt := (readFields?_eq_some_iff.mp reads).secondOfDay_lt (List.mem_append_right _ member)
    cases moment
    have epoch : inRange Moment.epoch = true := by decide
    exact ⟨lt, epoch⟩

theorem regular_of_ofText? {text : String} (read : Moment.ofText? text = some t) :
    t.Regular := by
  unfold Moment.ofText? at read
  split at read
  · cases read
  · exact regular_of_momentOf? read

/-! ### Arithmetic -/

theorem regular_midnight {n : Int} (inside : inRange n = true) : (Moment.midnight n).Regular :=
  ⟨Nat.zero_lt_succ _, inside⟩

theorem Moment.Regular.addSeconds? {delta : Int} (regular : t.Regular)
    (moved : t.addSeconds? delta = some u) : u.Regular := by
  unfold Moment.addSeconds? at moved
  split at moved
  · cases moved
    exact regular
  · dsimp only at moved
    generalize (if t.leap = true ∧ delta < 0 then (t.second : Int) + 1 else t.second) + delta =
      total at moved
    split at moved
    · cases moved
      refine ⟨?_, ‹_›⟩
      dsimp only
      omega
    · cases moved

theorem Moment.Regular.addMonths? {months : Int} (regular : t.Regular)
    (moved : t.addMonths? months = some u) : u.Regular := by
  have proper : t.date.Proper := Date.proper_ofNumber t.day
  simp only [Moment.addMonths?] at moved
  split at moved
  · rename_i years
    cases moved
    refine ⟨regular.second_lt, inRange_number (d := ⟨_, _, _⟩) (Date.valid_iff.mpr ⟨?_, years⟩)⟩
    exact ⟨Nat.le_add_left 1 _, by dsimp only; omega,
      Nat.le_min.mpr ⟨proper.day_pos, daysInMonth_pos _ _⟩, Nat.min_le_right _ _⟩
  · cases moved

theorem Moment.Regular.add? {interval : Interval} {amount : Int} (regular : t.Regular)
    (moved : Calendar.add? interval amount t = some u) : u.Regular := by
  cases interval with
  | year | quarter | month => exact regular.addMonths? moved
  | dayOfYear | day | weekday | week | hour | minute | second => exact regular.addSeconds? moved

theorem regular_of_dateSerial {year month day : Int64}
    (reached : dateSerial year month day = .ok (some t)) : t.Regular := by
  obtain ⟨n, arrives, rfl⟩ := dateSerial_eq_some_iff.mp reached
  exact regular_midnight arrives.inside

theorem regular_of_timeSerial? {hour minute second : Int64}
    (reached : timeSerial? hour minute second = some t) : t.Regular := by
  obtain ⟨n, -, moved⟩ := Option.bind_eq_some_iff.mp reached
  exact (regular_midnight (by decide)).addSeconds? moved

theorem Moment.Regular.ofText?_text (regular : t.Regular) :
    ofText? t.text = if t.date.year ≤ 9999 then some t.shown else none := by
  split
  · exact Calendar.ofText?_text regular.supported ‹_› regular.second_lt
  · exact ofText?_text_late (Int.not_le.mp ‹_›)

end ServerScript.Calendar
