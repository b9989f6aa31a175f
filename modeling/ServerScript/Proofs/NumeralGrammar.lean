import Mathlib.Data.List.TakeWhile
import ServerScript.Proofs.IntegerNumerals
import ServerScript.Proofs.JsonText

/-! The grammar of numerals. Without the blanks at its ends a numeral is an integer, in decimal digits
or in those of the radix that a mark in front of them tells, or it is a decimal fraction with an
optional power of ten. An integer that is no word is a fraction if it has no mark, and nothing
otherwise. -/
namespace ServerScript

namespace Text

structure Trimmed (cs t : List Char) : Prop where
  around : ∃ before after, cs = before ++ (t ++ after) ∧
    (∀ c ∈ before, isBlank c = true) ∧ ∀ c ∈ after, isBlank c = true
  first : ∀ c ∈ t.head?, isBlank c = false
  last : ∀ c ∈ t.getLast?, isBlank c = false

theorem head?_dropWhile (drop : Char → Bool) (cs : List Char) :
    ∀ c ∈ (cs.dropWhile drop).head?, drop c = false := by
  intro c first
  have stopped := List.head?_dropWhile_not drop cs
  rw [Option.mem_def.mp first] at stopped
  exact stopped

theorem trimmed_trim (text : String) : Trimmed text.toList (trim text).toList := by
  rw [trim, String.toList_ofList, trimBoth, trimRight]
  generalize text.toList = cs
  let left := trimLeft isBlank cs
  have ends : left = (left.reverse.dropWhile isBlank).reverse ++
      (left.reverse.takeWhile isBlank).reverse := by
    rw [← List.reverse_append, List.takeWhile_append_dropWhile, List.reverse_reverse]
  constructor
  · refine ⟨cs.takeWhile isBlank, (left.reverse.takeWhile isBlank).reverse, ?_, ?_, ?_⟩
    · rw [← ends]
      exact List.takeWhile_append_dropWhile.symm
    · exact fun c member => List.mem_takeWhile_imp member
    · exact fun c member => List.mem_takeWhile_imp (List.mem_reverse.mp member)
  · intro c first
    refine head?_dropWhile isBlank cs c ?_
    change c ∈ left.head?
    rw [ends, List.head?_append, Option.mem_def.mp first]
    rfl
  · rw [List.getLast?_reverse]
    exact head?_dropWhile isBlank _

end Text

namespace Number

variable {radix n : Nat} {c : Char} {cs ds es rest : List Char} {z : Int} {w : Int64}

def signs : List (List Char) := [[], ['+'], ['-']]

def Decimals (ds : List Char) : Prop := ∃ n, DigitsOf 10 ds n

/-- Decimal digits with an optional point among or around them. -/
inductive Mantissa : List Char → Prop
  | whole {ds : List Char} (digits : Decimals ds) : Mantissa ds
  | pointed {ds es : List Char} (digits : Decimals ds) (more : es = [] ∨ Decimals es) :
      Mantissa (ds ++ '.' :: es)
  | leading {es : List Char} (digits : Decimals es) : Mantissa ('.' :: es)

inductive Exponent : List Char → Prop
  | none : Exponent []
  | power {c : Char} {s ds : List Char} (mark : c = 'e' ∨ c = 'E') (sign : s ∈ signs)
      (digits : Decimals ds) : Exponent (c :: (s ++ ds))

inductive Fractional : List Char → Prop
  | mk {s ms es : List Char} (sign : s ∈ signs) (mantissa : Mantissa ms) (exponent : Exponent es) :
      Fractional (s ++ (ms ++ es))

inductive Marked : List Char → Nat → List Char → Prop
  | hexadecimal {c : Char} {ds : List Char} (mark : c = 'h' ∨ c = 'H') : Marked ('&' :: c :: ds) 16 ds
  | octal {c : Char} {ds : List Char} (mark : c = 'o' ∨ c = 'O') : Marked ('&' :: c :: ds) 8 ds

/-- An integer in decimal digits, or in those of the radix that a mark tells. -/
inductive Integral : List Char → Int → Prop
  | decimal {cs : List Char} {z : Int} (denoted : IntegerOf 10 cs z) : Integral cs z
  | marked {cs ds : List Char} {radix : Nat} {z : Int} (mark : Marked cs radix ds)
      (denoted : IntegerOf radix ds z) : Integral cs z

/-! ### Signs and digits -/

theorem exists_sign (cs : List Char) : ∃ s ∈ signs, cs = s ++ (takeSign cs).2 := by
  unfold takeSign
  split
  · exact ⟨['-'], by decide, rfl⟩
  · exact ⟨['+'], by decide, rfl⟩
  · exact ⟨[], by decide, rfl⟩

theorem takeSign_append {s : List Char} (sign : s ∈ signs)
    (first : ∀ c ∈ cs.head?, c ≠ '-' ∧ c ≠ '+') : (takeSign (s ++ cs)).2 = cs := by
  simp only [signs, List.mem_cons, List.not_mem_nil, or_false] at sign
  rcases sign with rfl | rfl | rfl
  · rw [List.nil_append, takeSign_eq_self first]
  · rfl
  · rfl

theorem isDigit_iff_digitValue_lt : isDigit c = true ↔ digitValue c < 10 := by
  refine ⟨fun digit => (digitValue_of_isDigit digit).2, fun below => ?_⟩
  unfold digitValue at below
  split at below
  · rename_i digit
    simp only [isDigit, Bool.and_eq_true, decide_eq_true_eq]
    exact digit
  · repeat' split at below
    all_goals omega

theorem decimals_iff : Decimals ds ↔ ds ≠ [] ∧ ∀ c ∈ ds, isDigit c = true := by
  constructor
  · rintro ⟨n, denotes⟩
    refine ⟨denotes.ne_nil, fun c member => ?_⟩
    obtain ⟨d, stands⟩ := denotes.each c member
    rw [isDigit_iff_digitValue_lt, digitValue_of_digit (by decide) stands]
    exact stands.1
  · rintro ⟨some, digits⟩
    exact ⟨_, digitsOf_foldl (by decide) some fun c member =>
      isDigit_iff_digitValue_lt.mp (digits c member)⟩

theorem Decimals.ne_nil (digits : Decimals ds) : ds ≠ [] := (decimals_iff.mp digits).1

theorem Decimals.head?_ne_sign (digits : Decimals ds) : ∀ c ∈ ds.head?, c ≠ '-' ∧ c ≠ '+' := by
  obtain ⟨n, denotes⟩ := digits
  exact denotes.head?_ne_sign (by decide)

theorem of_spanDigits (taken : spanDigits cs = (ds, rest)) :
    cs = ds ++ rest ∧ (ds = [] ∨ Decimals ds) := by
  cases taken
  refine ⟨List.takeWhile_append_dropWhile.symm, ?_⟩
  rcases Decidable.em (cs.takeWhile isDigit = []) with none | some
  · exact .inl none
  · exact .inr (decimals_iff.mpr ⟨some, fun c member => List.mem_takeWhile_imp member⟩)

theorem Decimals.spanDigits (digits : Decimals ds) (stops : ∀ c ∈ rest.head?, isDigit c = false) :
    Number.spanDigits (ds ++ rest) = (ds, rest) :=
  spanDigits_append (decimals_iff.mp digits).2 stops

theorem spanDigits_eq_self (stops : ∀ c ∈ cs.head?, isDigit c = false) :
    spanDigits cs = ([], cs) := by
  change spanDigits ([] ++ cs) = ([], cs)
  exact spanDigits_append (List.forall_mem_nil _) stops

/-! ### Fractions -/

theorem isSome_exponent?_iff (cap : Nat) : (exponent? cap cs).isSome = true ↔ Exponent cs := by
  constructor
  · intro read
    unfold exponent? at read
    split at read
    · exact .none
    · rename_i c rest
      obtain ⟨s, sign, split⟩ := exists_sign rest
      split at read
      · rename_i mark
        rw [split]
        refine .power mark sign ?_
        dsimp only at read
        split at read
        · rename_i digits
          exact decimals_iff.mpr ⟨digits.1, List.all_eq_true.mp digits.2⟩
        · cases read
      · cases read
  · intro exponent
    cases exponent with
    | none => rfl
    | power mark sign digits =>
      obtain ⟨some, all⟩ := decimals_iff.mp digits
      rw [exponent?, if_pos mark]
      dsimp only
      rw [takeSign_append sign digits.head?_ne_sign, if_pos ⟨some, List.all_eq_true.mpr all⟩]
      rfl

theorem Exponent.head? (exponent : Exponent es) : ∀ c ∈ es.head?, isDigit c = false ∧ c ≠ '.' := by
  cases exponent with
  | none => nofun
  | power mark =>
    rintro c ⟨⟩
    rcases mark with rfl | rfl <;> decide

theorem Mantissa.head?_ne_sign (mantissa : Mantissa ds) (rest : List Char) :
    ∀ c ∈ (ds ++ rest).head?, c ≠ '-' ∧ c ≠ '+' := by
  have front {ds : List Char} (digits : Decimals ds) (rest : List Char) :
      ∀ c ∈ (ds ++ rest).head?, c ≠ '-' ∧ c ≠ '+' := by
    obtain ⟨some, -⟩ := decimals_iff.mp digits
    rw [List.head?_append, List.head?_eq_some_head some, Option.some_or, ← List.head?_eq_some_head some]
    exact digits.head?_ne_sign
  cases mantissa with
  | whole digits => exact front digits rest
  | pointed digits =>
    rw [List.append_assoc]
    exact front digits _
  | leading =>
    rintro c ⟨⟩
    decide

def pointPart (rest : List Char) : List Char × List Char :=
  match rest with
  | '.' :: more => spanDigits more
  | _ => ([], rest)

theorem pointPart_eq_self (first : ∀ c ∈ rest.head?, c ≠ '.') : pointPart rest = ([], rest) := by
  unfold pointPart
  split
  · exact absurd rfl (first _ rfl)
  · rfl

theorem of_pointPart {part left : List Char} (taken : pointPart rest = (part, left)) :
    part = [] ∧ rest = left ∨ rest = '.' :: (part ++ left) ∧ (part = [] ∨ Decimals part) := by
  unfold pointPart at taken
  split at taken
  · obtain ⟨rfl, digits⟩ := of_spanDigits taken
    exact .inr ⟨rfl, digits⟩
  · cases taken
    exact .inl ⟨rfl, rfl⟩

theorem isSome_fraction?_iff_of_parts {whole part left : List Char}
    (front : spanDigits (takeSign cs).2 = (whole, rest)) (back : pointPart rest = (part, left)) :
    (fraction? cs).isSome = true ↔
      ¬(whole = [] ∧ part = []) ∧ (exponent? exponentCap left).isSome = true := by
  have parts : fraction? cs =
      let front := spanDigits (takeSign cs).2
      let back := pointPart front.2
      if front.1 = [] ∧ back.1 = [] then none
      else (exponent? exponentCap back.2).map fun e =>
        ⟨(takeSign cs).1, (condensed (front.1 ++ back.1)).1.foldl (fun n c => n * 10 + digitValue c) 0,
          e - back.1.length + (condensed (front.1 ++ back.1)).2⟩ := rfl
  rw [parts, front]
  dsimp only
  rw [back]
  split
  · rename_i none
    exact ⟨nofun, fun some => absurd none some.1⟩
  · rename_i some
    rw [Option.isSome_map]
    exact ⟨fun read => ⟨some, read⟩, And.right⟩

theorem fractional_of_isSome (read : (fraction? cs).isSome = true) : Fractional cs := by
  obtain ⟨s, sign, signed⟩ := exists_sign cs
  rcases front : spanDigits (takeSign cs).2 with ⟨whole, rest⟩
  rcases back : pointPart rest with ⟨part, left⟩
  obtain ⟨some, read⟩ := (isSome_fraction?_iff_of_parts front back).mp read
  have exponent := (isSome_exponent?_iff _).mp read
  obtain ⟨written, digits⟩ := of_spanDigits front
  rw [signed, written]
  rcases of_pointPart back with ⟨rfl, rfl⟩ | ⟨rfl, more⟩
  · have digits : Decimals whole := digits.resolve_left fun none => some ⟨none, rfl⟩
    exact .mk sign (.whole digits) exponent
  · rcases digits with rfl | digits
    · have more : Decimals part := more.resolve_left fun none => some ⟨rfl, none⟩
      change Fractional (s ++ ('.' :: part ++ left))
      exact .mk sign (.leading more) exponent
    · have pointed := Fractional.mk sign (.pointed digits more) exponent
      rwa [List.append_assoc, List.cons_append] at pointed

theorem Mantissa.parts (mantissa : Mantissa ds) (exponent : Exponent es) :
    ∃ whole rest part, spanDigits (ds ++ es) = (whole, rest) ∧ pointPart rest = (part, es) ∧
      ¬(whole = [] ∧ part = []) := by
  have stops := fun c first => (exponent.head? c first).1
  have pointless := pointPart_eq_self fun c first => (exponent.head? c first).2
  have point (cs : List Char) : ∀ c ∈ ('.' :: cs).head?, isDigit c = false := by
    rintro c ⟨⟩
    rfl
  cases mantissa with
  | whole digits =>
    exact ⟨ds, es, [], digits.spanDigits stops, pointless, fun none => digits.ne_nil none.1⟩
  | @pointed whole part digits more =>
    refine ⟨whole, '.' :: (part ++ es), part, ?_, ?_, fun none => digits.ne_nil none.1⟩
    · rw [List.append_assoc]
      exact digits.spanDigits (point _)
    · rcases more with rfl | more
      · exact spanDigits_eq_self stops
      · exact more.spanDigits stops
  | @leading part digits =>
    exact ⟨[], '.' :: (part ++ es), part, spanDigits_eq_self (point _),
      digits.spanDigits stops, fun none => digits.ne_nil none.2⟩

theorem isSome_fraction?_iff : (fraction? cs).isSome = true ↔ Fractional cs := by
  refine ⟨fractional_of_isSome, fun fractional => ?_⟩
  obtain ⟨sign, mantissa, exponent⟩ := fractional
  obtain ⟨whole, rest, part, front, back, some⟩ := mantissa.parts exponent
  rw [← takeSign_append sign (mantissa.head?_ne_sign _)] at front
  exact (isSome_fraction?_iff_of_parts front back).mpr ⟨some, (isSome_exponent?_iff _).mpr exponent⟩

/-! ### Marks -/

theorem radixMark?_eq_some_iff : radixMark? cs = some (radix, ds) ↔ Marked cs radix ds := by
  constructor
  · intro read
    unfold radixMark? at read
    split at read
    · split at read
      · rename_i mark
        cases read
        exact .hexadecimal mark
      · split at read
        · rename_i mark
          cases read
          exact .octal mark
        · cases read
    · cases read
  · intro marked
    cases marked with
    | hexadecimal mark => rw [radixMark?, if_pos mark]
    | octal mark =>
      rw [radixMark?, if_neg (by rcases mark with rfl | rfl <;> decide), if_pos mark]

theorem Marked.radix_mem (marked : Marked cs radix ds) : 2 ≤ radix ∧ radix ≤ 16 := by
  cases marked <;> decide

theorem Marked.not_integerOf (marked : Marked cs radix ds) : ¬IntegerOf 10 cs z := by
  intro denoted
  have first : cs.head? = some '&' := by cases marked <;> rfl
  cases denoted with
  | bare digits =>
    obtain ⟨d, stands⟩ := digits.each '&' (List.mem_of_head? first)
    exact stands.ne (by decide) (by decide) rfl
  | plus => cases first
  | minus => cases first

theorem integral_iff_of_marked (marked : Marked cs radix ds) :
    Integral cs z ↔ IntegerOf radix ds z := by
  constructor
  · rintro (denoted | ⟨mark, denoted⟩)
    · exact absurd denoted marked.not_integerOf
    · have same := (radixMark?_eq_some_iff.mpr mark).symm.trans (radixMark?_eq_some_iff.mpr marked)
      cases same
      exact denoted
  · exact .marked marked

theorem integral_iff_of_unmarked (unmarked : ∀ radix ds, ¬Marked cs radix ds) :
    Integral cs z ↔ IntegerOf 10 cs z := by
  constructor
  · rintro (denoted | ⟨mark, -⟩)
    · exact denoted
    · exact absurd mark (unmarked _ _)
  · exact .decimal

/-! ### Numerals -/

theorem numeralOf?_of_marked (marked : Marked cs radix ds) :
    numeralOf? cs = (integer? radix ds).map .int := by
  have none : integer? 10 cs = none := Option.eq_none_iff_forall_ne_some.mpr fun w read =>
    marked.not_integerOf ((integer?_eq_some_iff (by decide) (by decide)).mp read)
  rw [numeralOf?, none, radixMark?_eq_some_iff.mpr marked]

theorem numeralOf?_of_unmarked (unmarked : ∀ radix ds, ¬Marked cs radix ds) :
    numeralOf? cs =
      ((integer? 10 cs).map .int).or ((fraction? cs).map fun f => .float f.toFloat) := by
  have none : radixMark? cs = none := Option.eq_none_iff_forall_ne_some.mpr fun parts read =>
    unmarked _ _ (radixMark?_eq_some_iff.mp read)
  rw [numeralOf?, none]
  cases integer? 10 cs <;> rfl

theorem numeralOf?_eq_int_iff : numeralOf? cs = some (.int w) ↔ Integral cs w.toInt := by
  rcases Classical.em (∃ radix ds, Marked cs radix ds) with ⟨radix, ds, marked⟩ | unmarked
  · obtain ⟨wide, small⟩ := marked.radix_mem
    rw [numeralOf?_of_marked marked, integral_iff_of_marked marked,
      ← integer?_eq_some_iff wide small]
    cases integer? radix ds <;> simp
  · have unmarked : ∀ radix ds, ¬Marked cs radix ds := fun radix ds marked =>
      unmarked ⟨radix, ds, marked⟩
    rw [numeralOf?_of_unmarked unmarked, integral_iff_of_unmarked unmarked,
      ← integer?_eq_some_iff (by decide) (by decide)]
    cases integer? 10 cs <;> cases fraction? cs <;> simp

theorem exists_numeralOf?_eq_float_iff :
    (∃ x, numeralOf? cs = some (.float x)) ↔
      ¬(∃ w : Int64, Integral cs w.toInt) ∧ ¬(∃ radix ds, Marked cs radix ds) ∧ Fractional cs := by
  constructor
  · rintro ⟨x, read⟩
    have unmarked : ¬∃ radix ds, Marked cs radix ds := by
      rintro ⟨radix, ds, marked⟩
      rw [numeralOf?_of_marked marked] at read
      obtain ⟨w, -, ⟨⟩⟩ := Option.map_eq_some_iff.mp read
    refine ⟨?_, unmarked, ?_⟩
    · rintro ⟨w, integral⟩
      rw [numeralOf?_eq_int_iff.mpr integral] at read
      cases read
    · rw [numeralOf?_of_unmarked fun radix ds marked => unmarked ⟨radix, ds, marked⟩] at read
      rcases Option.or_eq_some_iff.mp read with whole | ⟨-, fraction⟩
      · obtain ⟨w, -, ⟨⟩⟩ := Option.map_eq_some_iff.mp whole
      · obtain ⟨f, found, -⟩ := Option.map_eq_some_iff.mp fraction
        exact isSome_fraction?_iff.mp (Option.isSome_of_eq_some found)
  · rintro ⟨noInteger, unmarked, fractional⟩
    obtain ⟨f, found⟩ := Option.isSome_iff_exists.mp (isSome_fraction?_iff.mpr fractional)
    have none : integer? 10 cs = none := Option.eq_none_iff_forall_ne_some.mpr fun w read =>
      noInteger ⟨w, .decimal ((integer?_eq_some_iff (by decide) (by decide)).mp read)⟩
    refine ⟨f.toFloat, ?_⟩
    rw [numeralOf?_of_unmarked fun radix ds marked => unmarked ⟨radix, ds, marked⟩, none, found]
    rfl

theorem numeralOf?_eq_none_iff :
    numeralOf? cs = none ↔
      ¬(∃ w : Int64, Integral cs w.toInt) ∧
        ((∃ radix ds, Marked cs radix ds) ∨ ¬Fractional cs) := by
  have kinds : numeralOf? cs = none ↔ ¬(∃ w, numeralOf? cs = some (.int w)) ∧
      ¬(∃ x, numeralOf? cs = some (.float x)) := by
    rcases numeralOf? cs with _ | _ | _ <;> simp
  rw [kinds, exists_numeralOf?_eq_float_iff]
  simp only [numeralOf?_eq_int_iff]
  refine and_congr_right fun whole => ?_
  rw [not_and_or, not_and_or, not_not, not_not]
  exact or_iff_right whole

/-! ### Texts without digits -/

theorem IntegerOf.exists_digit (denoted : IntegerOf radix cs z) :
    ∃ c ∈ cs, ∃ d, Digit radix c d := by
  have first {ds : List Char} {n : Nat} (digits : DigitsOf radix ds n) :
      ∃ c ∈ ds, ∃ d, Digit radix c d := by
    obtain ⟨c, member⟩ := List.exists_mem_of_ne_nil ds digits.ne_nil
    exact ⟨c, member, digits.each c member⟩
  cases denoted with
  | bare digits => exact first digits
  | plus digits | minus digits =>
    obtain ⟨c, member, stands⟩ := first digits
    exact ⟨c, List.mem_cons_of_mem _ member, stands⟩

theorem Fractional.exists_digit (fractional : Fractional cs) : ∃ c ∈ cs, isDigit c = true := by
  have first {ds : List Char} (digits : Decimals ds) : ∃ c ∈ ds, isDigit c = true := by
    obtain ⟨some, all⟩ := decimals_iff.mp digits
    obtain ⟨c, member⟩ := List.exists_mem_of_ne_nil ds some
    exact ⟨c, member, all c member⟩
  obtain ⟨-, mantissa, -⟩ := fractional
  cases mantissa with
  | whole digits | pointed digits | leading digits =>
    obtain ⟨c, member, digit⟩ := first digits
    exact ⟨c, by simp [member], digit⟩

theorem numeralOf?_of_no_digits (bare : ∀ c ∈ cs, isDigit c = false)
    (markedBare : ∀ radix ds, Marked cs radix ds → ds ∈ signs) : numeralOf? cs = none := by
  refine numeralOf?_eq_none_iff.mpr ⟨?_, .inr fun fractional => ?_⟩
  · rintro ⟨w, denoted | ⟨mark, denoted⟩⟩
    · obtain ⟨c, member, d, stands⟩ := denoted.exists_digit
      have digit : isDigit c = true := by
        rw [isDigit_iff_digitValue_lt, digitValue_of_digit (by decide) stands]
        exact stands.1
      exact absurd digit (by rw [bare c member]; decide)
    · obtain ⟨c, member, d, stands⟩ := denoted.exists_digit
      have sign : ∀ s ∈ signs, ∀ c ∈ s, c = '+' ∨ c = '-' := by simp [signs]
      have small := mark.radix_mem.2
      rcases sign _ (markedBare _ _ mark) c member with rfl | rfl
      · exact stands.ne small (by decide) rfl
      · exact stands.ne small (by decide) rfl
  · obtain ⟨c, member, digit⟩ := fractional.exists_digit
    exact absurd digit (by rw [bare c member]; decide)

/-! ### Texts -/

theorem numeral?_eq (text : String) : numeral? text = numeralOf? (Text.trim text).toList := by
  rw [numeral?, Text.trim, String.toList_ofList]

/-- What a text is read as is told by the grammar of what is left of it without the blanks at its
ends: an integer that is a word, otherwise a fraction if no mark announces an integer, and nothing
else. -/
theorem numerals_follow_grammar (text : String) :
    let t := (Text.trim text).toList
    Text.Trimmed text.toList t ∧
    (∀ w : Int64, numeral? text = some (.int w) ↔ Integral t w.toInt) ∧
    ((∃ x, numeral? text = some (.float x)) ↔
      ¬(∃ w : Int64, Integral t w.toInt) ∧ ¬(∃ radix ds, Marked t radix ds) ∧ Fractional t) ∧
    (numeral? text = none ↔
      ¬(∃ w : Int64, Integral t w.toInt) ∧ ((∃ radix ds, Marked t radix ds) ∨ ¬Fractional t)) ∧
    ((∀ c ∈ t, isDigit c = false) → (∀ radix ds, Marked t radix ds → ds ∈ signs) →
      numeral? text = none) := by
  intro t
  rw [numeral?_eq]
  exact ⟨Text.trimmed_trim text, fun w => numeralOf?_eq_int_iff, exists_numeralOf?_eq_float_iff,
    numeralOf?_eq_none_iff, numeralOf?_of_no_digits⟩

theorem infinity_is_no_numeral :
    let t := (Text.trim " -Inf ").toList
    ((∀ c ∈ t, isDigit c = false) ∧ ∀ radix ds, Marked t radix ds → ds ∈ signs) ∧
      numeral? " -Inf " = none := by
  intro t
  have word : t = ['-', 'I', 'n', 'f'] := by decide
  have bare : ∀ c ∈ t, isDigit c = false := by
    rw [word]
    simp only [List.forall_mem_cons]
    exact ⟨rfl, rfl, rfl, rfl, List.forall_mem_nil _⟩
  have unmarked : ∀ radix ds, Marked t radix ds → ds ∈ signs := by
    rw [word]
    rintro radix ds ⟨⟩
  exact ⟨⟨bare, unmarked⟩, (numerals_follow_grammar " -Inf ").2.2.2.2 bare unmarked⟩

example : numeral? " &HfF " = some (.int 255) := rfl

end Number
end ServerScript
