import ServerScript.Proofs.NumeralGrammar
import ServerScript.Proofs.TextFunctions

/-! Texts of integers, read again. The digits that are written for a number denote it, so a text is
read as the number that was written; the digits in a radix are those of the bits of the word, which
make the same integer only if it is not negative. -/
namespace ServerScript

namespace Number

variable {radix n d : Nat} {c : Char} {cs ds : List Char} {z : Int}

/-! ### Written digits -/

theorem Digit.toUpper (small : radix ≤ 16) (stands : Digit radix c d) :
    Digit radix c.toUpper d := by
  obtain ⟨below, spelled⟩ := stands
  have all : ∀ d < 16, d.digitChar.toUpper.toUpper = d.digitChar.toUpper := by decide
  refine ⟨below, .inr ?_⟩
  rcases spelled with rfl | rfl
  · rfl
  · exact all d (by omega)

theorem DigitsOf.toUpper (small : radix ≤ 16) (denotes : DigitsOf radix ds n) :
    DigitsOf radix (ds.map Char.toUpper) n := by
  induction denotes with
  | digit stands => exact .digit (stands.toUpper small)
  | snoc front last ih =>
    rw [List.map_append]
    exact .snoc ih (last.toUpper small)

theorem digitsOf_toDigits (wide : 2 ≤ radix) (n : Nat) : DigitsOf radix (Nat.toDigits radix n) n := by
  induction n using Nat.strongRecOn with
  | ind n ih =>
    rw [Nat.toDigits_eq_if wide]
    split
    · rename_i below
      exact .digit ⟨below, .inl rfl⟩
    · have smaller : n / radix < n := Nat.div_lt_self (by omega) wide
      have last : Digit radix (n % radix).digitChar (n % radix) :=
        ⟨Nat.mod_lt n (by omega), .inl rfl⟩
      have parts := DigitsOf.snoc (ih _ smaller) last
      rwa [Nat.div_add_mod'] at parts

theorem Digit.visible (small : radix ≤ 16) (stands : Digit radix c d) :
    0x21 ≤ c.toNat ∧ c.toNat < 0x7f := by
  obtain ⟨below, spelled⟩ := stands
  have all : ∀ d < 16, (0x21 ≤ d.digitChar.toNat ∧ d.digitChar.toNat < 0x7f) ∧
      0x21 ≤ d.digitChar.toUpper.toNat ∧ d.digitChar.toUpper.toNat < 0x7f := by decide
  obtain ⟨lower, upper⟩ := all d (by omega)
  rcases spelled with rfl | rfl
  · exact lower
  · exact upper

/-! ### Reading -/

theorem Marked.visible (marked : Marked cs radix ds)
    (digits : ∀ c ∈ ds, 0x21 ≤ c.toNat ∧ c.toNat < 0x7f) :
    ∀ c ∈ cs, 0x21 ≤ c.toNat ∧ c.toNat < 0x7f := by
  cases marked with
  | hexadecimal mark | octal mark =>
    refine List.forall_mem_cons.mpr ⟨by decide, List.forall_mem_cons.mpr ⟨?_, digits⟩⟩
    rcases mark with rfl | rfl <;> decide

theorem numeral?_of_visible {text : String}
    (visible : ∀ c ∈ text.toList, 0x21 ≤ c.toNat ∧ c.toNat < 0x7f) :
    numeral? text = numeralOf? text.toList := by
  have plain : ∀ c ∈ text.toList, Text.isBlank c = false := fun c member =>
    Text.isBlank_of_visible (visible c member).1 (visible c member).2
  rw [numeral?, Text.trimBoth_eq_self]
  · exact fun c first => plain c (List.mem_of_mem_head? first)
  · exact fun c last => plain c (List.mem_of_mem_getLast? last)

theorem IntegerOf.visible (denoted : IntegerOf radix cs z) (small : radix ≤ 16) :
    ∀ c ∈ cs, 0x21 ≤ c.toNat ∧ c.toNat < 0x7f := by
  have all {ds : List Char} {n : Nat} (digits : DigitsOf radix ds n) :
      ∀ c ∈ ds, 0x21 ≤ c.toNat ∧ c.toNat < 0x7f := fun c member =>
    (digits.each c member).elim fun _ stands => stands.visible small
  cases denoted with
  | bare digits => exact all digits
  | plus digits | minus digits =>
    exact List.forall_mem_cons.mpr ⟨by decide, all digits⟩

theorem IntegerOf.eq_of_digitsOf (small : radix ≤ 16) (denoted : IntegerOf radix ds z)
    (digits : DigitsOf radix ds n) : z = n := by
  have unsigned := digits.head?_ne_sign small
  cases denoted with
  | bare digits' => exact congrArg Nat.cast (digits'.functional small digits)
  | plus => exact absurd rfl (unsigned '+' rfl).2
  | minus => exact absurd rfl (unsigned '-' rfl).1

theorem DigitsOf.integer? (wide : 2 ≤ radix) (small : radix ≤ 16) (digits : DigitsOf radix ds n) :
    Number.integer? radix ds = word? n := by
  refine Option.ext fun w => ?_
  rw [integer?_eq_some_iff wide small]
  constructor
  · intro denoted
    rw [← denoted.eq_of_digitsOf small digits, word?_toInt]
  · intro word
    rw [toInt_of_word? word]
    exact .bare digits

theorem numeral?_of_marked {text : String} (marked : Marked text.toList radix ds)
    (digits : DigitsOf radix ds n) : numeral? text = (word? n).map .int := by
  obtain ⟨wide, small⟩ := marked.radix_mem
  have visible : ∀ c ∈ ds, 0x21 ≤ c.toNat ∧ c.toNat < 0x7f := fun c member =>
    (digits.each c member).elim fun _ stands => stands.visible small
  rw [numeral?_of_visible (marked.visible visible), numeralOf?_of_marked marked,
    digits.integer? wide small]

theorem integerOf_toString (z : Int) : IntegerOf 10 (toString z).toList z := by
  have digits : DigitsOf 10 (Nat.toDigits 10 z.natAbs) z.natAbs := digitsOf_toDigits (by decide) _
  rw [Json.toList_toString]
  split
  · have negative : z = -(z.natAbs : Int) := by omega
    have written := IntegerOf.minus digits
    rwa [← negative] at written
  · have positive : z = (z.natAbs : Int) := by omega
    have written := IntegerOf.bare digits
    rwa [← positive] at written

end Number

namespace Function

open Number

variable {radix : Nat} {n : Int64}

theorem toInt_unsigned (n : Int64) :
    (unsigned n : Int) =
      if 0 ≤ n.toInt then n.toInt
      else if -2 ^ 31 ≤ n.toInt then n.toInt + 2 ^ 32
      else n.toInt + 2 ^ 64 := by
  obtain ⟨least, most⟩ := toInt_mem n
  unfold wordMin wordMax at *
  simp only [unsigned, fits32, Bool.and_eq_true, decide_eq_true_eq, UInt32.size, UInt64.size]
  split <;> omega

/-- How a written form of a word is read again, by where the word lies. -/
structure ReadAgain (n : Int64) (read : Option Numeric) : Prop where
  positive : 0 ≤ n.toInt → read = some (.int n)
  turned : -2 ^ 31 ≤ n.toInt → n.toInt < 0 →
    ∃ w : Int64, w.toInt = n.toInt + 2 ^ 32 ∧ read = some (.int w)
  refused : n.toInt < -2 ^ 31 → read = none

theorem readAgain_unsigned (n : Int64) : ReadAgain n ((word? (unsigned n)).map .int) := by
  obtain ⟨least, most⟩ := toInt_mem n
  have bits := toInt_unsigned n
  constructor
  · intro positive
    rw [if_pos positive] at bits
    rw [bits, word?_toInt]
    rfl
  · intro low negative
    rw [if_neg (by omega), if_pos low] at bits
    obtain ⟨w, word⟩ := exists_word?_iff (n := unsigned n).mpr (by unfold wordMin wordMax; omega)
    refine ⟨w, (toInt_of_word? word).trans bits, ?_⟩
    rw [word]
    rfl
  · intro low
    rw [if_neg (by omega), if_neg (by omega)] at bits
    have none : word? (unsigned n) = none := by
      unfold wordMin wordMax at *
      rw [word?, if_neg (by unfold wordMin wordMax; omega)]
    rw [none]
    rfl

theorem numeral?_toString (n : Int64) : numeral? (toString n.toInt) = some (.int n) := by
  have denoted := integerOf_toString n.toInt
  rw [numeral?_of_visible (denoted.visible (by decide)), numeralOf?_eq_int_iff]
  exact .decimal denoted

theorem readAgain_inRadix {name mark : String}
    (found : builtin? name = some (.ofAnswer name (.exactly 1) (inRadix radix)))
    (marked : ∀ ds, Marked (mark.toList ++ ds) radix ds) (n : Int64) (m : Machine) :
    ∃ digits, Yields name [.integer n] m (.string digits) m ∧
      ReadAgain n (Value.string (mark ++ digits)).toNumeric? := by
  obtain ⟨wide, small⟩ := (marked []).radix_mem
  have digits := (digitsOf_toDigits wide (unsigned n)).toUpper small
  refine ⟨_, yields_of_answer found rfl rfl, ?_⟩
  rw [Value.toNumeric?, numeral?_of_marked ?_ digits]
  · exact readAgain_unsigned n
  · rw [String.toList_append, String.toList_ofList]
    exact marked _

/-- The text of an integer is read as this integer. Behind the mark of their radix the digits of an
integer that is not negative are read as it, those of a negative one as the integer that comes
after a turn of thirty-two bits, and not at all if it has more bits. -/
theorem integer_texts_read_again (n : Int64) (m : Machine) :
    (Value.string (Value.integer n).toText).toNumeric? = some (.int n) ∧
    ∀ form ∈ [("hex", "&h"), ("oct", "&o")], ∃ digits,
      Yields form.1 [.integer n] m (.string digits) m ∧
      ReadAgain n (Value.string (form.2 ++ digits)).toNumeric? := by
  refine ⟨numeral?_toString n, List.forall_mem_cons.mpr ⟨?_, List.forall_mem_singleton.mpr ?_⟩⟩
  · have mark (ds : List Char) : Marked ("&h".toList ++ ds) 16 ds := .hexadecimal (.inl rfl)
    exact readAgain_inRadix rfl mark n m
  · have mark (ds : List Char) : Marked ("&o".toList ++ ds) 8 ds := .octal (.inl rfl)
    exact readAgain_inRadix rfl mark n m

end Function

end ServerScript
