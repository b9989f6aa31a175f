import Mathlib.Algebra.Group.Nat.Defs
import Mathlib.Data.List.Induction
import Mathlib.Tactic.Common
import ServerScript.Number.Numeral

/-! Integers as numerals. Digits are read by the number that they denote in their radix, in front of
which a sign may stand; what is read is the word of that number, and no digits are refused but those
of a number that is no word. -/
namespace ServerScript.Number

variable {radix n m d k : Nat} {c : Char} {cs ds : List Char}

/-- A character stands for a digit of the radix; letters of either case continue after nine. -/
def Digit (radix : Nat) (c : Char) (d : Nat) : Prop :=
  d < radix ∧ (c = d.digitChar ∨ c = d.digitChar.toUpper)

/-- Digits of the radix, at least one of them, denote a number. -/
inductive DigitsOf (radix : Nat) : List Char → Nat → Prop
  | digit {c : Char} {d : Nat} (stands : Digit radix c d) : DigitsOf radix [c] d
  | snoc {ds : List Char} {n : Nat} {c : Char} {d : Nat} (front : DigitsOf radix ds n)
      (last : Digit radix c d) : DigitsOf radix (ds ++ [c]) (n * radix + d)

/-- Digits with an optional sign in front denote an integer. -/
inductive IntegerOf (radix : Nat) : List Char → Int → Prop
  | bare {ds : List Char} {n : Nat} (digits : DigitsOf radix ds n) : IntegerOf radix ds n
  | plus {ds : List Char} {n : Nat} (digits : DigitsOf radix ds n) : IntegerOf radix ('+' :: ds) n
  | minus {ds : List Char} {n : Nat} (digits : DigitsOf radix ds n) : IntegerOf radix ('-' :: ds) (-n)

/-! ### Digits -/

theorem digitValue_of_digit (small : radix ≤ 16) (stands : Digit radix c d) :
    digitValue c = d := by
  obtain ⟨below, spelled⟩ := stands
  have all : ∀ d < 16, digitValue d.digitChar = d ∧ digitValue d.digitChar.toUpper = d := by
    decide
  obtain ⟨lower, upper⟩ := all d (by omega)
  rcases spelled with rfl | rfl
  · exact lower
  · exact upper

theorem digit_of_digitValue_lt (small : radix ≤ 16) (below : digitValue c < radix) :
    Digit radix c (digitValue c) := by
  refine ⟨below, ?_⟩
  have all : ∀ d < 16, (d < 10 → Char.ofNat (d + '0'.toNat) = d.digitChar) ∧
      (10 ≤ d → Char.ofNat (d - 10 + 'a'.toNat) = d.digitChar ∧
        Char.ofNat (d - 10 + 'A'.toNat) = d.digitChar.toUpper) := by decide
  have spelled := all (digitValue c) (by omega)
  have self := Char.ofNat_toNat c
  unfold digitValue at below spelled ⊢
  split at below
  · rename_i digit
    have low : '0'.toNat ≤ c.toNat := digit.1
    have high : c.toNat ≤ '9'.toNat := digit.2
    have nine : '9'.toNat = '0'.toNat + 9 := rfl
    rw [if_pos digit] at spelled ⊢
    rw [Nat.sub_add_cancel low, self] at spelled
    exact .inl (spelled.1 (by omega))
  · rename_i noDigit
    split at below
    · rename_i letter
      have low : 'a'.toNat ≤ c.toNat := letter.1
      rw [if_neg noDigit, if_pos letter] at spelled ⊢
      rw [Nat.add_sub_cancel, Nat.sub_add_cancel low, self] at spelled
      exact .inl (spelled.2 (by omega)).1
    · rename_i noLetter
      split at below
      · rename_i capital
        have low : 'A'.toNat ≤ c.toNat := capital.1
        rw [if_neg noDigit, if_neg noLetter, if_pos capital] at spelled ⊢
        rw [Nat.add_sub_cancel, Nat.sub_add_cancel low, self] at spelled
        exact .inr (spelled.2 (by omega)).2
      · omega

theorem DigitsOf.ne_nil (denotes : DigitsOf radix ds n) : ds ≠ [] := by
  cases denotes with
  | digit => exact List.cons_ne_nil _ _
  | snoc => exact List.append_ne_nil_of_right_ne_nil _ (List.cons_ne_nil _ _)

theorem DigitsOf.each (denotes : DigitsOf radix ds n) : ∀ c ∈ ds, ∃ d, Digit radix c d := by
  induction denotes with
  | digit stands => exact List.forall_mem_singleton.mpr ⟨_, stands⟩
  | snoc front last ih =>
    exact List.forall_mem_append.mpr ⟨ih, List.forall_mem_singleton.mpr ⟨_, last⟩⟩

theorem DigitsOf.foldl (small : radix ≤ 16) (denotes : DigitsOf radix ds n) :
    ds.foldl (fun n c => n * radix + digitValue c) 0 = n := by
  induction denotes with
  | digit stands => rw [List.foldl_cons, List.foldl_nil, digitValue_of_digit small stands,
      Nat.zero_mul, Nat.zero_add]
  | snoc front last ih =>
    rw [List.foldl_append, ih, List.foldl_cons, List.foldl_nil, digitValue_of_digit small last]

theorem digitsOf_foldl (small : radix ≤ 16) (some : ds ≠ []) (all : ∀ c ∈ ds, digitValue c < radix) :
    DigitsOf radix ds (ds.foldl (fun n c => n * radix + digitValue c) 0) := by
  induction ds using List.reverseRecOn with
  | nil => exact absurd rfl some
  | append_singleton ds c ih =>
    have last := digit_of_digitValue_lt small (all c List.mem_concat_self)
    rw [List.foldl_append, List.foldl_cons, List.foldl_nil]
    rcases List.eq_nil_or_concat ds with rfl | ⟨front, e, rfl⟩
    · rw [List.foldl_nil, Nat.zero_mul, Nat.zero_add]
      exact .digit last
    · exact .snoc (ih (by simp) fun e member => all e (List.mem_append_left _ member)) last

theorem digits?_eq_some_iff (small : radix ≤ 16) :
    digits? radix ds = some n ↔ DigitsOf radix ds n := by
  constructor
  · intro read
    unfold digits? at read
    split at read
    · rename_i digits
      cases read
      exact digitsOf_foldl small digits.1 fun c member =>
        of_decide_eq_true (List.all_eq_true.mp digits.2 c member)
    · cases read
  · intro denotes
    have all : ds.all (digitValue · < radix) = true := by
      refine List.all_eq_true.mpr fun c member => ?_
      obtain ⟨d, stands⟩ := denotes.each c member
      rw [digitValue_of_digit small stands]
      exact decide_eq_true stands.1
    rw [digits?, if_pos ⟨denotes.ne_nil, all⟩, denotes.foldl small]

theorem DigitsOf.functional (small : radix ≤ 16) (first : DigitsOf radix ds n)
    (second : DigitsOf radix ds m) : n = m := by
  rw [← first.foldl small, second.foldl small]

/-! ### Numbers that are words -/

theorem eq_zero_of_digit (stands : Digit radix c 0) : c = '0' := by
  rcases stands.2 with rfl | rfl <;> rfl

theorem DigitsOf.length_significant_le (wide : 2 ≤ radix) (denotes : DigitsOf radix ds n)
    (below : n < 2 ^ k) : (significant ds).length ≤ k := by
  have single {c : Char} {d k : Nat} (stands : Digit radix c d) (below : d < 2 ^ k) :
      (significant [c]).length ≤ k := by
    cases k with
    | zero =>
      obtain rfl : d = 0 := by omega
      rw [eq_zero_of_digit stands]
      exact Nat.le_refl 0
    | succ k => exact Nat.le_trans (List.dropWhile_sublist _).length_le (Nat.le_add_left 1 k)
  induction denotes generalizing k with
  | digit stands => exact single stands below
  | @snoc ds n c d front last ih =>
    rw [significant, List.dropWhile_append]
    -- Only zeros may stand in front of the last digit, and then it is all that counts.
    split
    · refine single last (Nat.lt_of_le_of_lt ?_ below)
      exact Nat.le_add_left d _
    · rename_i front_significant
      have doubled : n * 2 ≤ n * radix := Nat.mul_le_mul_left n wide
      cases k with
      | zero =>
        have none : (significant ds).length ≤ 0 := ih (k := 0) (by omega)
        exact absurd (List.isEmpty_iff.mpr (List.length_eq_zero_iff.mp (Nat.le_zero.mp none)))
          front_significant
      | succ k =>
        rw [List.length_append]
        refine Nat.add_le_add_right (ih ?_) 1
        rw [Nat.pow_succ] at below
        omega

theorem digitsOf_of_wordDigits? (small : radix ≤ 16) (read : wordDigits? radix ds = some n) :
    DigitsOf radix ds n := by
  unfold wordDigits? at read
  split at read
  · cases read
  · exact (digits?_eq_some_iff small).mp read

theorem DigitsOf.wordDigits? (wide : 2 ≤ radix) (small : radix ≤ 16) (denotes : DigitsOf radix ds n)
    (below : n < 2 ^ 64) : Number.wordDigits? radix ds = some n := by
  have short := denotes.length_significant_le wide below
  rw [Number.wordDigits?, if_neg (Nat.not_lt.mpr short), (digits?_eq_some_iff small).mpr denotes]

theorem Digit.ne {e : Char} (small : radix ≤ 16) (stands : Digit radix c d)
    (other : 16 ≤ digitValue e) : c ≠ e := by
  rintro rfl
  have value := digitValue_of_digit small stands
  have below := stands.1
  omega

theorem takeSign_eq_self (first : ∀ c ∈ cs.head?, c ≠ '-' ∧ c ≠ '+') : takeSign cs = (false, cs) := by
  unfold takeSign
  split
  · exact absurd rfl (first _ rfl).1
  · exact absurd rfl (first _ rfl).2
  · rfl

theorem DigitsOf.head?_ne_sign (small : radix ≤ 16) (denotes : DigitsOf radix ds n) :
    ∀ c ∈ ds.head?, c ≠ '-' ∧ c ≠ '+' := by
  intro c first
  obtain ⟨d, stands⟩ := denotes.each c (List.mem_of_mem_head? first)
  exact ⟨stands.ne small (by decide), stands.ne small (by decide)⟩

theorem integer?_of_takeSign (wide : 2 ≤ radix) (small : radix ≤ 16) {negative : Bool} {w : Int64}
    (sign : takeSign cs = (negative, ds)) (denotes : DigitsOf radix ds n)
    (value : w.toInt = signed negative n) : integer? radix cs = some w := by
  have below : n < 2 ^ 64 := by
    obtain ⟨least, most⟩ := toInt_mem w
    unfold wordMin wordMax signed at *
    split at value <;> omega
  rw [integer?, sign]
  dsimp only
  rw [denotes.wordDigits? wide small below, Option.bind_some, ← value, word?_toInt]

theorem integer?_eq_some_iff (wide : 2 ≤ radix) (small : radix ≤ 16) {w : Int64} :
    integer? radix cs = some w ↔ IntegerOf radix cs w.toInt := by
  constructor
  · intro read
    unfold integer? at read
    obtain ⟨n, digits, word⟩ := Option.bind_eq_some_iff.mp read
    have denotes := digitsOf_of_wordDigits? small digits
    rw [toInt_of_word? word]
    unfold takeSign at *
    split at denotes
    · exact .minus denotes
    · exact .plus denotes
    · exact .bare denotes
  · intro denoted
    generalize value : w.toInt = z at denoted
    cases denoted with
    | bare digits =>
      exact integer?_of_takeSign wide small (takeSign_eq_self (digits.head?_ne_sign small)) digits
        value
    | plus digits => exact integer?_of_takeSign wide small rfl digits value
    | minus digits => exact integer?_of_takeSign wide small rfl digits value

end ServerScript.Number
