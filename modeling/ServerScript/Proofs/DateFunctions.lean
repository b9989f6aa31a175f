import ServerScript.Proofs.RegularMoments
import ServerScript.Proofs.TextFunctions

/-! The functions that give dates, as a script calls them. Dates go from one function to the next
as texts, so what a function gives can be used as a date exactly if its text is read back; and that
is so exactly if its year takes no five digits, which the arithmetic of dates does not ensure. -/
namespace ServerScript.Function

open Calendar (Moment Interval)

variable {name : String} {args : List Value} {m m' : Machine} {v : Value} {t : Moment}

theorem answer_of_yields {arity : Arity} {f : List Value → Answer}
    (found : builtin? name = some (.ofAnswer name arity f)) (called : Yields name args m v m') :
    f args = .ok v := by
  rw [Yields, call?, found] at called
  dsimp only at called
  split at called
  · have run : ((Builtin.ofAnswer name arity f).run args).exec m = (f args, m) := by
      rw [Builtin.ofAnswer, Run.exec_ofStop]
    cases answer : f args with
    | error stop =>
      rw [Run.exec_bind_error (run.trans (by rw [answer]))] at called
      cases called
    | ok w =>
      rw [Run.exec_bind_ok (run.trans (by rw [answer]))] at called
      cases called
      rfl
  · cases called

theorem exists_of_dateArg {index : Nat} (read : dateArg args index name = .ok t) :
    Moment.ofText? (textArg args index) = some t := by
  unfold dateArg at read
  split at read
  · cases read
    assumption
  · cases read

theorem exists_of_ofMoment? {t : Option Moment} (answer : ofMoment? t name = .ok v) :
    ∃ u, t = some u ∧ v = ofMoment u := by
  unfold ofMoment? at answer
  split at answer
  · cases answer
    exact ⟨_, rfl, rfl⟩
  · cases answer

/-- The moment whose text a function on dates gives. -/
inductive Writes : String → List Value → Moment → Prop
  | dateSerial {args : List Value} {t : Moment}
      (reached : Calendar.dateSerial (Value.arg args 0).toWord (Value.arg args 1).toWord
        (Value.arg args 2).toWord = .ok (some t)) : Writes "dateserial" args t
  | timeSerial {args : List Value} {t : Moment}
      (reached : Calendar.timeSerial? (Value.arg args 0).toWord (Value.arg args 1).toWord
        (Value.arg args 2).toWord = some t) : Writes "timeserial" args t
  | dateAdd {args : List Value} {interval : Interval} {t u : Moment}
      (unit : Interval.ofText? (Text.lower (textArg args 0)) = some interval)
      (read : Moment.ofText? (textArg args 2) = some t)
      (moved : Calendar.add? interval (Value.arg args 1).toWord.toInt t = some u) :
      Writes "dateadd" args u
  | cDate {args : List Value} {t : Moment} (read : Moment.ofText? (textArg args 0) = some t) :
      Writes "cdate" args t
  | formatDateTime {args : List Value} {t : Moment}
      (read : Moment.ofText? (textArg args 0) = some t) (format : wordArg args 1 0 = 0) :
      Writes "formatdatetime" args t

theorem Writes.regular (writes : Writes name args t) : t.Regular := by
  cases writes with
  | dateSerial reached => exact Calendar.regular_of_dateSerial reached
  | timeSerial reached => exact Calendar.regular_of_timeSerial? reached
  | dateAdd unit read moved => exact (Calendar.regular_of_ofText? read).add? moved
  | cDate read => exact Calendar.regular_of_ofText? read
  | formatDateTime read => exact Calendar.regular_of_ofText? read

theorem writes_dateSerial (answer : dateSerial args = .ok v) :
    ∃ t, Writes "dateserial" args t ∧ v = ofMoment t := by
  obtain ⟨reached, counted, answer⟩ := exists_of_bind_eq_ok answer
  obtain ⟨t, rfl, rfl⟩ := exists_of_ofMoment? answer
  refine ⟨t, .dateSerial ?_, rfl⟩
  cases serial : Calendar.dateSerial (Value.arg args 0).toWord (Value.arg args 1).toWord
      (Value.arg args 2).toWord with
  | error fault =>
    rw [serial] at counted
    cases counted
  | ok found =>
    rw [serial] at counted
    cases counted
    rfl

theorem writes_timeSerial (answer : timeSerial args = .ok v) :
    ∃ t, Writes "timeserial" args t ∧ v = ofMoment t := by
  obtain ⟨t, reached, rfl⟩ := exists_of_ofMoment? answer
  exact ⟨t, .timeSerial reached, rfl⟩

theorem writes_dateAdd (answer : dateAdd args = .ok v) :
    ∃ t, Writes "dateadd" args t ∧ v = ofMoment t := by
  obtain ⟨interval, unit, answer⟩ := exists_of_bind_eq_ok answer
  obtain ⟨start, read, answer⟩ := exists_of_bind_eq_ok answer
  obtain ⟨t, moved, rfl⟩ := exists_of_ofMoment? answer
  obtain ⟨interval, rfl, moved⟩ := Option.bind_eq_some_iff.mp moved
  unfold intervalArg at unit
  dsimp only at unit
  split at unit
  · cases unit
  · exact ⟨t, .dateAdd (Except.ok.inj unit) (exists_of_dateArg read) moved, rfl⟩

theorem writes_cDate (answer : cDate args = .ok v) :
    ∃ t, Writes "cdate" args t ∧ v = ofMoment t := by
  obtain ⟨t, read, answer⟩ := exists_of_bind_eq_ok answer
  cases answer
  exact ⟨t, .cDate (exists_of_dateArg read), rfl⟩

theorem writes_formatDateTime (format : wordArg args 1 0 = 0)
    (answer : formatDateTime args = .ok v) :
    ∃ t, Writes "formatdatetime" args t ∧ v = ofMoment t := by
  obtain ⟨t, read, answer⟩ := exists_of_bind_eq_ok answer
  rw [format] at answer
  cases answer
  exact ⟨t, .formatDateTime (exists_of_dateArg read) format, rfl⟩

theorem dateArg_of_arg {index : Nat} (given : Value.arg args index = ofMoment t)
    (regular : t.Regular) :
    dateArg args index name = if t.date.year ≤ 9999 then .ok t.shown else mismatch name := by
  have text : textArg args index = t.text := by
    rw [textArg, given]
    rfl
  rw [dateArg, text, regular.ofText?_text]
  by_cases year : t.date.year ≤ 9999
  · rw [if_pos year, if_pos year]
  · rw [if_neg year, if_neg year]

theorem isDate_ofMoment (regular : t.Regular) :
    isDate (ofMoment t) = decide (t.date.year ≤ 9999) := by
  rw [ofMoment, isDate, regular.ofText?_text]
  by_cases year : t.date.year ≤ 9999
  · rw [if_pos year, decide_eq_true year]
    rfl
  · rw [if_neg year, decide_eq_false year]
    rfl

theorem exists_writes (called : Yields name args m v m')
    (dated : name ∈ ["dateserial", "timeserial", "dateadd", "cdate"] ∨
      name = "formatdatetime" ∧ wordArg args 1 0 = 0) :
    ∃ t, Writes name args t ∧ v = ofMoment t := by
  obtain listed | ⟨rfl, format⟩ := dated
  · simp only [List.mem_cons, List.not_mem_nil, or_false] at listed
    obtain rfl | rfl | rfl | rfl := listed
    · exact writes_dateSerial (answer_of_yields rfl called)
    · exact writes_timeSerial (answer_of_yields rfl called)
    · exact writes_dateAdd (answer_of_yields rfl called)
    · exact writes_cDate (answer_of_yields rfl called)
  · exact writes_formatDateTime format (answer_of_yields rfl called)

/-- What a function on dates gives is the text of a moment. Up to the year 9999 every function
reads that moment from it, to the second; beyond it the text is no date to any of them. -/
theorem given_date_read_back (called : Yields name args m v m')
    (dated : name ∈ ["dateserial", "timeserial", "dateadd", "cdate"] ∨
      name = "formatdatetime" ∧ wordArg args 1 0 = 0) :
    ∃ t, Writes name args t ∧ v = ofMoment t ∧
      Moment.ofText? t.text = (if t.date.year ≤ 9999 then some t.shown else none) ∧
      Yields "isdate" [v] m' (.bool (decide (t.date.year ≤ 9999))) m' ∧
      ∀ (given : List Value) (index : Nat) (function : String), Value.arg given index = v →
        dateArg given index function =
          if t.date.year ≤ 9999 then .ok t.shown else mismatch function := by
  obtain ⟨t, writes, rfl⟩ := exists_writes called dated
  have regular := writes.regular
  refine ⟨t, writes, rfl, regular.ofText?_text, ?_, fun _ _ _ given =>
    dateArg_of_arg given regular⟩
  refine yields_of_answer rfl rfl ?_
  exact congrArg (Except.ok ∘ Value.bool) (isDate_ofMoment regular)

theorem leap_second_read_back :
    let args : List Value := [.string "23:59:60"]
    let v : Value := .string "11:59:59 PM"
    Yields "cdate" args {} v {} ∧
    ∃ t, Writes "cdate" args t ∧ v = ofMoment t ∧
      Moment.ofText? t.text = (if t.date.year ≤ 9999 then some t.shown else none) ∧
      Yields "isdate" [v] {} (.bool (decide (t.date.year ≤ 9999))) {} ∧
      ∀ (given : List Value) (index : Nat) (function : String), Value.arg given index = v →
        dateArg given index function =
          if t.date.year ≤ 9999 then .ok t.shown else mismatch function := by
  intro args v
  have read : Moment.ofText? "23:59:60" = some ⟨Moment.epoch, 86399, true⟩ := by decide +kernel
  have shown : Moment.text ⟨Moment.epoch, 86399, true⟩ = "11:59:59 PM" := by decide
  have answer : cDate args = .ok v := by
    have text : textArg args 0 = "23:59:60" := rfl
    rw [cDate, dateArg, text, read]
    exact congrArg (Except.ok ∘ Value.string) shown
  have called : Yields "cdate" args {} v {} := yields_of_answer rfl rfl answer
  exact ⟨called, given_date_read_back called (.inl (by decide))⟩

/-- The first day of the year 10000 can be reached, but what is given for it is no date. -/
theorem first_day_of_10000_not_read :
    let args : List Value := [.integer 10000, .integer 1, .integer 1]
    let v : Value := .string "1/1/10000"
    Yields "dateserial" args {} v {} ∧ Yields "isdate" [v] {} (.bool false) {} ∧
      Moment.ofText? "1/1/10000" = none ∧ dateArg [v] 0 "Year" = mismatch "Year" := by
  intro args v
  have unread : Moment.ofText? "1/1/10000" = none := by decide +kernel
  have undated : isDate v = false := by
    rw [isDate, unread]
    rfl
  have refused : dateArg [v] 0 "Year" = mismatch "Year" := by
    have text : textArg [v] 0 = "1/1/10000" := rfl
    rw [dateArg, text, unread]
  have reached : Calendar.dateSerial 10000 1 1 =
      .ok (some (.midnight (Calendar.dayNumber 10000 1 1))) := by decide +kernel
  have shown : Moment.text (.midnight (Calendar.dayNumber 10000 1 1)) = "1/1/10000" := by decide
  have answer : dateSerial args = .ok v := by
    change (ofFaultOr (Calendar.dateSerial 10000 1 1) >>= fun t => ofMoment? t "DateSerial") = _
    rw [reached]
    exact congrArg (Except.ok ∘ Value.string) shown
  exact ⟨yields_of_answer rfl rfl answer, yields_of_answer rfl rfl
    (congrArg (Except.ok ∘ Value.bool) undated), unread, refused⟩

end ServerScript.Function
