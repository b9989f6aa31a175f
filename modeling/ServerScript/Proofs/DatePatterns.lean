import ServerScript.Calendar.Text
import ServerScript.Proofs.JsonText

/-! Reading by a pattern, one piece after the other. What a piece leaves is the end of what it was
given, so every character that a pattern names stands in the text. A number takes the digits in
front of it as far as its width goes: digits that spell a number of its width are read as that
number, and the digits beyond the width are left to the pieces that follow. -/
namespace ServerScript.Calendar

open Number

deriving instance ReflBEq, LawfulBEq for Item

variable {item : Item} {items more : List Item} {f g : Fields} {cs ds rest left : List Char}
  {c : Char} {n width : Nat}

/-- The pieces of a pattern read the front of a text one after the other and leave the rest. -/
inductive Reads : List Item → Fields → List Char → Fields → List Char → Prop
  | done {f : Fields} {rest : List Char} : Reads [] f rest f rest
  | next {item : Item} {items : List Item} {f g h : Fields} {cs rest left : List Char}
      (first : item.read? f cs = some (g, rest)) (later : Reads items g rest h left) :
      Reads (item :: items) f cs h left

theorem reads_cons_iff : Reads (item :: items) f cs g left ↔
    ∃ h rest, item.read? f cs = some (h, rest) ∧ Reads items h rest g left := by
  constructor
  · rintro (_ | ⟨first, later⟩)
    exact ⟨_, _, first, later⟩
  · rintro ⟨h, rest, first, later⟩
    exact .next first later

theorem readFields?_eq_some_iff : readFields? items f cs = some g ↔ Reads items f cs g [] := by
  induction items generalizing f cs with
  | nil =>
    constructor
    · intro read
      cases cs <;> cases read
      exact .done
    · rintro ⟨⟩
      rfl
  | cons item items ih =>
    rw [reads_cons_iff, readFields?]
    cases read : item.read? f cs with
    | none => simp
    | some pair =>
      dsimp only
      rw [ih]
      constructor
      · exact fun later => ⟨_, _, rfl, later⟩
      · rintro ⟨h, rest, pair, later⟩
        cases pair
        exact later

theorem readFields?_eq_none_iff :
    readFields? items f cs = none ↔ ∀ g, ¬Reads items f cs g [] := by
  rw [Option.eq_none_iff_forall_ne_some]
  exact forall_congr' fun g => not_congr readFields?_eq_some_iff

theorem Reads.append {h : Fields} (front : Reads items f cs g rest)
    (behind : Reads more g rest h left) : Reads (items ++ more) f cs h left := by
  induction front with
  | done => exact behind
  | next first _ ih => exact .next first (ih behind)

theorem Reads.past (later : Reads items f rest g left) :
    Reads (.char c :: items) f (c :: rest) g left :=
  .next (if_pos rfl) later

/-! ### What is left -/

theorem skipBlanks_suffix (cs : List Char) : skipBlanks cs <:+ cs := List.dropWhile_suffix _

theorem number?_suffix (found : number? width cs = some (n, left)) : left <:+ cs := by
  obtain ⟨n, -, pair⟩ := Option.map_eq_some_iff.mp found
  cases pair
  exact List.drop_suffix _ _

theorem year?_suffix {year : Int} (found : year? cs = some (year, left)) : left <:+ cs := by
  unfold year? at found
  split at found
  all_goals
    obtain ⟨⟨n, rest⟩, read, pair⟩ := Option.map_eq_some_iff.mp found
    cases pair
  · exact (number?_suffix read).trans (List.suffix_cons _ _)
  · exact (number?_suffix read).trans (List.suffix_cons _ _)
  · exact number?_suffix read

theorem bounded?_suffix {low high : Nat} (found : bounded? low high cs = some (n, left)) :
    left <:+ cs := by
  unfold bounded? at found
  split at found
  · rename_i read
    split at found
    · cases found
      exact (number?_suffix read).trans (skipBlanks_suffix cs)
    · cases found
  · cases found

theorem monthName?_suffix (found : monthName? cs = some (n, left)) : left <:+ cs := by
  simp only [monthName?] at found
  split at found
  · cases found
  · split at found
    · cases found
      exact (List.drop_suffix _ _).trans (List.drop_suffix _ _)
    · cases found
      exact List.drop_suffix _ _

theorem Item.read?_suffix (read : item.read? f cs = some (g, left)) : left <:+ cs := by
  cases item with
  | gap =>
    cases read
    exact skipBlanks_suffix cs
  | char c =>
    cases cs with
    | nil => cases read
    | cons d rest =>
      simp only [Item.read?] at read
      split at read
      · cases read
        exact List.suffix_cons _ _
      · cases read
  | half =>
    simp only [Item.read?] at read
    split at read
    · cases read
      exact List.drop_suffix _ _
    · cases read
      exact List.drop_suffix _ _
    · cases read
  | year =>
    obtain ⟨⟨year, rest⟩, found, pair⟩ := Option.map_eq_some_iff.mp read
    cases pair
    exact (year?_suffix found).trans (skipBlanks_suffix cs)
  | monthName =>
    obtain ⟨⟨n, rest⟩, found, pair⟩ := Option.map_eq_some_iff.mp read
    cases pair
    exact monthName?_suffix found
  | month | day | hour24 | hour12 | minute | second =>
    obtain ⟨⟨n, rest⟩, found, pair⟩ := Option.map_eq_some_iff.mp read
    cases pair
    exact bounded?_suffix found

theorem Reads.mem_of_char (reads : Reads items f cs g left) (named : Item.char c ∈ items) :
    c ∈ cs := by
  induction reads with
  | done => cases named
  | @next item items f g h cs rest left first later ih =>
    rcases List.mem_cons.mp named with rfl | named
    · cases cs with
      | nil => cases first
      | cons d rest =>
        simp only [Item.read?] at first
        split at first
        · exact List.mem_cons.mpr (.inl ‹_›)
        · cases first
    · exact (Item.read?_suffix first).subset (ih named)

/-! ### Digits -/

def Breaks (rest : List Char) : Prop := ∀ c ∈ rest.head?, isDigit c = false

theorem breaks_nil : Breaks [] := nofun

theorem breaks_cons (other : isDigit c = false) : Breaks (c :: rest) := by
  rintro d ⟨⟩
  exact other

structure Digits (ds : List Char) : Prop where
  all : ∀ c ∈ ds, isDigit c
  ne_nil : ds ≠ []

theorem digits_toDigits (n : Nat) : Digits (Nat.toDigits 10 n) :=
  ⟨fun _ => isDigit_of_mem_toDigits, Nat.toDigits_ne_nil⟩

theorem Digits.drop (digits : Digits ds) (more : n < ds.length) : Digits (ds.drop n) := by
  refine ⟨fun c member => digits.all c (List.mem_of_mem_drop member), ?_⟩
  simpa using more

structure Spells (ds : List Char) (n : Nat) : Prop where
  digits : Digits ds
  value : wordDigits? 10 ds = some n

theorem spells_toDigits {n : Nat} (small : n < 10 ^ 64) : Spells (Nat.toDigits 10 n) n :=
  ⟨digits_toDigits n, wordDigits?_toDigits small⟩

theorem length_toDigits_le {n width : Nat} (positive : 0 < width) (small : n < 10 ^ width) :
    (Nat.toDigits 10 n).length ≤ width :=
  (Nat.length_toDigits_le_iff (by omega) positive).mpr small

theorem spells_twoDigits : ∀ {n : Nat}, n < 100 →
    Spells (twoDigits n).toList n ∧ (twoDigits n).toList.length = 2 := by
  have all : ∀ n < 100, ((twoDigits n).toList.all isDigit ∧
      wordDigits? 10 (twoDigits n).toList = some n) ∧ (twoDigits n).toList.length = 2 := by
    decide
  intro n small
  obtain ⟨⟨digits, value⟩, length⟩ := all n small
  have some_digit : (twoDigits n).toList ≠ [] := by
    intro none
    rw [none] at length
    cases length
  exact ⟨⟨⟨List.all_eq_true.mp digits, some_digit⟩, value⟩, length⟩

theorem not_isBlank_of_isDigit (digit : isDigit c) : Text.isBlank c = false := by
  simp only [isDigit, Bool.and_eq_true, decide_eq_true_eq] at digit
  exact Text.isBlank_of_visible (Nat.le_trans (by decide) digit.1)
    (Nat.lt_of_le_of_lt digit.2 (by decide))

theorem skipBlanks_digits (digits : Digits ds) :
    skipBlanks (ds ++ rest) = ds ++ rest := by
  obtain ⟨c, ds, rfl⟩ := List.exists_cons_of_ne_nil digits.ne_nil
  have first := not_isBlank_of_isDigit (digits.all c (List.mem_cons_self ..))
  rw [skipBlanks, List.cons_append, List.dropWhile_cons_of_neg (by simp [first])]

theorem skipBlanks_space (cs : List Char) : skipBlanks (' ' :: cs) = skipBlanks cs :=
  List.dropWhile_cons_of_pos (by decide)

theorem number?_digits (digits : Digits ds) (breaks : Breaks rest) (width : Nat) :
    number? width (ds ++ rest) =
      (wordDigits? 10 (ds.take width)).map (·, ds.drop width ++ rest) := by
  have taken : ((ds ++ rest).take width).takeWhile isDigit = ds.take width := by
    have stops : Breaks (rest.take (width - ds.length)) := by
      intro c first
      rw [List.head?_take] at first
      split at first
      · cases first
      · exact breaks c first
    have front : ∀ c ∈ ds.take width, isDigit c :=
      fun c member => digits.all c (List.mem_of_mem_take member)
    rw [List.take_append]
    exact congrArg Prod.fst (spanDigits_append front stops)
  have dropped : (ds ++ rest).drop (ds.take width).length = ds.drop width ++ rest := by
    rw [List.length_take, List.drop_append_of_le_length (Nat.min_le_right _ _)]
    congr 1
    rcases Nat.le_total width ds.length with le | le
    · rw [Nat.min_eq_left le]
    · rw [Nat.min_eq_right le, List.drop_length, List.drop_eq_nil_of_le le]
  rw [number?, taken, dropped]

theorem Spells.number? (spells : Spells ds n) (fits : ds.length ≤ width) (breaks : Breaks rest) :
    Calendar.number? width (ds ++ rest) = some (n, rest) := by
  rw [number?_digits spells.digits breaks, List.take_of_length_le fits,
    List.drop_eq_nil_of_le fits, spells.value]
  rfl

theorem Spells.bounded? {low high : Nat} (spells : Spells ds n) (short : ds.length ≤ 2)
    (inside : low ≤ n ∧ n ≤ high) (breaks : Breaks rest) :
    Calendar.bounded? low high (ds ++ rest) = some (n, rest) := by
  rw [Calendar.bounded?, skipBlanks_digits spells.digits,
    spells.number? short breaks]
  exact if_pos inside

/-! ### Digits that are left -/

def Item.width? : Item → Option Nat
  | .year => some 4
  | .month | .day | .hour24 | .hour12 | .minute | .second => some 2
  | .gap | .half | .monthName | .char _ => none

theorem number?_leaves (digits : Digits ds) (breaks : Breaks rest)
    (found : number? width (ds ++ rest) = some (n, left)) : left = ds.drop width ++ rest := by
  rw [number?_digits digits breaks] at found
  obtain ⟨n, -, pair⟩ := Option.map_eq_some_iff.mp found
  cases pair
  rfl

theorem year?_digits (digits : Digits ds) :
    year? (ds ++ rest) = (number? 4 (ds ++ rest)).map fun (n, rest) => ((n : Int), rest) := by
  obtain ⟨c, ds, rfl⟩ := List.exists_cons_of_ne_nil digits.ne_nil
  have digit := digits.all c (List.mem_cons_self ..)
  rw [List.cons_append]
  unfold year?
  split
  · rename_i same
    cases same
    cases digit
  · rename_i same
    cases same
    cases digit
  · rfl

theorem bounded?_leaves {low high : Nat} (digits : Digits ds)
    (breaks : Breaks rest) (found : bounded? low high (ds ++ rest) = some (n, left)) :
    left = ds.drop 2 ++ rest := by
  rw [bounded?, skipBlanks_digits digits] at found
  split at found
  · rename_i read
    split at found
    · cases found
      exact number?_leaves digits breaks read
    · cases found
  · cases found

/-- What a number leaves of the digits it is given. -/
theorem Item.read?_leaves (counts : item.width? = some width) (digits : Digits ds)
    (breaks : Breaks rest) (read : item.read? f (ds ++ rest) = some (g, left)) :
    left = ds.drop width ++ rest := by
  cases item with
  | gap | half | monthName | char => cases counts
  | year =>
    cases counts
    rw [Item.read?, skipBlanks_digits digits, year?_digits digits] at read
    obtain ⟨⟨year, rest⟩, found, pair⟩ := Option.map_eq_some_iff.mp read
    obtain ⟨⟨n, rest⟩, found, pair'⟩ := Option.map_eq_some_iff.mp found
    cases pair
    cases pair'
    exact number?_leaves digits breaks found
  | month | day | hour24 | hour12 | minute | second =>
    cases counts
    obtain ⟨⟨n, rest⟩, found, pair⟩ := Option.map_eq_some_iff.mp read
    cases pair
    exact bounded?_leaves digits breaks found

theorem Reads.number (counts : item.width? = some width) (digits : Digits ds)
    (breaks : Breaks rest) (reads : Reads (item :: items) f (ds ++ rest) g left) :
    ∃ h, Reads items h (ds.drop width ++ rest) g left := by
  obtain ⟨h, rest, first, later⟩ := reads_cons_iff.mp reads
  rw [Item.read?_leaves counts digits breaks first] at later
  exact ⟨h, later⟩

theorem Reads.char (reads : Reads (.char c :: items) f cs g left) :
    ∃ rest, cs = c :: rest ∧ Reads items f rest g left := by
  obtain ⟨h, rest, first, later⟩ := reads_cons_iff.mp reads
  cases cs with
  | nil => cases first
  | cons d rest =>
    simp only [Item.read?] at first
    split at first
    · cases first
      exact ⟨_, ‹c = d› ▸ rfl, later⟩
    · cases first

theorem Reads.number_char (counts : item.width? = some width) (digits : Digits ds)
    (fits : ds.length ≤ width) (other : isDigit c = false)
    (reads : Reads (item :: .char c :: items) f (ds ++ c :: rest) g left) :
    ∃ h, Reads items h rest g left := by
  obtain ⟨h, later⟩ := reads.number counts digits (breaks_cons other)
  rw [List.drop_eq_nil_of_le fits, List.nil_append] at later
  obtain ⟨_, same, later⟩ := later.char
  cases same
  exact ⟨h, later⟩

theorem not_reads_time (counts : item.width? = some width) (digits : Digits ds)
    (breaks : Breaks rest) (last : ∀ c ∈ rest.head?, c ≠ ':') :
    ¬Reads (item :: .char ':' :: items) f (ds ++ rest) g left := by
  intro reads
  obtain ⟨h, later⟩ := reads.number counts digits breaks
  obtain ⟨after, colon, -⟩ := later.char
  cases more : ds.drop width with
  | nil =>
    rw [more, List.nil_append] at colon
    exact last ':' (by rw [colon]; rfl) rfl
  | cons d _ =>
    rw [more] at colon
    cases colon
    have := digits.all ':' (List.mem_of_mem_drop (more ▸ List.mem_cons_self ..))
    cases this

end ServerScript.Calendar
