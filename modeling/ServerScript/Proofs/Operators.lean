import ServerScript.Eval.Expression
import ServerScript.Proofs.Computation

/-! What operators yield. An operator fails only where it divides by what reads as zero, it is null
exactly where a null operand is passed on, and the quotient and the remainder of two words belong
together. -/
namespace ServerScript

def Value.IsScalar : Value → Prop
  | .bool _ | .integer _ | .float _ | .string _ => True
  | _ => False

theorem Value.IsScalar.ne_null {v : Value} (scalar : v.IsScalar) : v ≠ .null := by
  rintro rfl
  exact scalar

theorem Value.isNull_iff {v : Value} : v.isNull = true ↔ v = .null := by
  cases v <;> simp [Value.isNull]

namespace Operator

variable {mode : CompareMode} {op : BinaryOp} {l r : Value}

theorem scalar_negate (v : Value) : (negate v).IsScalar := by
  rw [negate]
  split
  · split <;> trivial
  · trivial

theorem scalar_unary {v : Value} (notNull : v ≠ .null) (op : UnaryOp) : (unary op v).IsScalar := by
  unfold unary
  rw [if_neg (mt Value.isNull_iff.mp notNull)]
  split
  · exact scalar_negate _
  · trivial
  · trivial

theorem unary_eq_null_iff {op : UnaryOp} {v : Value} : unary op v = .null ↔ v = .null := by
  constructor
  · intro yields
    by_contra notNull
    exact (scalar_unary notNull op).ne_null yields
  · rintro rfl
    exact unary_null op

theorem scalar_arithmetic (exact : Int → Int → Int) (rounded : Float → Float → Float)
    (l r : Value) : (arithmetic exact rounded l r).IsScalar := by
  rw [arithmetic]
  split
  · split <;> trivial
  · trivial

theorem scalar_logical (onBools : Bool → Bool → Bool) (onBits : Int32 → Int32 → Int32)
    (l r : Value) : (logical onBools onBits l r).IsScalar := by
  unfold logical
  split <;> trivial

theorem scalar_quotient (a b : Int64) : (quotient a b).IsScalar := by
  rw [quotient]
  split <;> trivial

def Nullified (op : BinaryOp) (l r : Value) : Prop :=
  op ≠ .concat ∧ op ≠ .is ∧ (l = .null ∨ r = .null)

/-- Whether an operator divides by what reads as zero: as a double for `/`, as a word in the
division of whole numbers. -/
def DividesByZero (op : BinaryOp) (divisor : Value) : Prop :=
  op = .div ∧ (divisor.toFloat == 0.0) = true ∨ (op = .intDiv ∨ op = .mod) ∧ divisor.toWord = 0

theorem nullified_iff : (passesNull op && (l.isNull || r.isNull)) = true ↔ Nullified op l r := by
  rw [Bool.and_eq_true, Bool.or_eq_true, Value.isNull_iff, Value.isNull_iff, Nullified, ← and_assoc]
  refine and_congr_left fun _ => ?_
  cases op <;> simp [passesNull]

theorem binary_of_nullified (null : Nullified op l r) : binary mode op l r = .ok .null := by
  unfold binary
  rw [if_pos (nullified_iff.mpr null)]

theorem map_divisionWords (f : Int64 × Int64 → Value) :
    (divisionWords l r).map f =
      if r.toWord = 0 then .error .divisionByZero else .ok (f (l.toWord, r.toWord)) := by
  rw [divisionWords]
  split <;> rfl

theorem binary_intDiv (live : ¬Nullified .intDiv l r) (nonzero : r.toWord ≠ 0) :
    binary mode .intDiv l r = .ok (quotient l.toWord r.toWord) := by
  unfold binary
  rw [if_neg (mt nullified_iff.mp live)]
  exact (map_divisionWords _).trans (if_neg nonzero)

theorem binary_mod (live : ¬Nullified .mod l r) (nonzero : r.toWord ≠ 0) :
    binary mode .mod l r = .ok (remainder l.toWord r.toWord) := by
  unfold binary
  rw [if_neg (mt nullified_iff.mp live)]
  exact (map_divisionWords _).trans (if_neg nonzero)

theorem binary_of_dividesByZero (live : ¬Nullified op l r) (zero : DividesByZero op r) :
    binary mode op l r = .error .divisionByZero := by
  unfold binary
  rw [if_neg (mt nullified_iff.mp live)]
  obtain ⟨rfl, zero⟩ | ⟨rfl | rfl, zero⟩ := zero
  · exact if_pos zero
  · exact (map_divisionWords _).trans (if_pos zero)
  · exact (map_divisionWords _).trans (if_pos zero)

theorem binary_computes (live : ¬Nullified op l r) (nonzero : ¬DividesByZero op r) :
    ∃ v, binary mode op l r = .ok v ∧ v.IsScalar := by
  unfold binary
  rw [if_neg (mt nullified_iff.mp live)]
  cases op with
  | add =>
    dsimp only
    split
    · -- two texts are joined
      exact ⟨_, rfl, trivial⟩
    · exact ⟨_, rfl, scalar_arithmetic ..⟩
  | sub | mul => exact ⟨_, rfl, scalar_arithmetic ..⟩
  | and | or | xor | eqv | imp => exact ⟨_, rfl, scalar_logical ..⟩
  | div =>
    have divisor : ¬(r.toFloat == 0.0) = true := fun zero => nonzero (.inl ⟨rfl, zero⟩)
    exact ⟨_, if_neg divisor, trivial⟩
  | intDiv =>
    have divisor : r.toWord ≠ 0 := fun zero => nonzero (.inr ⟨.inl rfl, zero⟩)
    exact ⟨_, (map_divisionWords _).trans (if_neg divisor), scalar_quotient ..⟩
  | mod =>
    have divisor : r.toWord ≠ 0 := fun zero => nonzero (.inr ⟨.inr rfl, zero⟩)
    exact ⟨_, (map_divisionWords _).trans (if_neg divisor), trivial⟩
  | _ => exact ⟨_, rfl, trivial⟩

theorem binary_cases (mode : CompareMode) (op : BinaryOp) (l r : Value) :
    (Nullified op l r ∧ binary mode op l r = .ok .null) ∨
    (¬Nullified op l r ∧ DividesByZero op r ∧ binary mode op l r = .error .divisionByZero) ∨
    (¬Nullified op l r ∧ ¬DividesByZero op r ∧ ∃ v, binary mode op l r = .ok v ∧ v.IsScalar) := by
  by_cases null : Nullified op l r
  · exact .inl ⟨null, binary_of_nullified null⟩
  · by_cases zero : DividesByZero op r
    · exact .inr (.inl ⟨null, zero, binary_of_dividesByZero null zero⟩)
    · exact .inr (.inr ⟨null, zero, binary_computes null zero⟩)

theorem binary_eq_error_iff {e : EvalError} : binary mode op l r = .error e ↔
    e = .divisionByZero ∧ ¬Nullified op l r ∧ DividesByZero op r := by
  rcases binary_cases mode op l r with ⟨null, yields⟩ | ⟨live, zero, fails⟩ | ⟨-, nonzero, v, yields, -⟩
  · simp [yields, null]
  · simp [fails, live, zero, eq_comm]
  · simp [yields, nonzero]

theorem binary_eq_null_iff : binary mode op l r = .ok .null ↔ Nullified op l r := by
  rcases binary_cases mode op l r with ⟨null, yields⟩ | ⟨live, -, fails⟩ | ⟨live, -, v, yields, scalar⟩
  · simp [yields, null]
  · simp [fails, live]
  · simp [yields, live, scalar.ne_null]

section Words

variable {a b : Int64}

theorem tdiv_toInt (fits : ¬(a = Int64.minValue ∧ b = -1)) :
    Int.tdiv a.toInt b.toInt = (a / b).toInt := by
  by_cases least : a = Int64.minValue
  · exact (Int64.toInt_div_of_ne_right a b fun minusOne => fits ⟨least, minusOne⟩).symm
  · exact (Int64.toInt_div_of_ne_left a b least).symm

theorem quotient_eq (fits : ¬(a = Int64.minValue ∧ b = -1)) : quotient a b = .integer (a / b) := by
  rw [quotient, tdiv_toInt fits, Number.word?_toInt]

theorem remainder_eq (a b : Int64) : remainder a b = .integer (a % b) := by
  rw [remainder, ← Int64.toInt_mod, Number.word?_toInt]
  rfl

theorem div_mul_add_mod (fits : ¬(a = Int64.minValue ∧ b = -1)) :
    (a / b).toInt * b.toInt + (a % b).toInt = a.toInt := by
  rw [← tdiv_toInt fits, Int64.toInt_mod, Int.tdiv_mul_add_tmod]

theorem natAbs_mod_lt (a : Int64) (nonzero : b ≠ 0) :
    (a % b).toInt.natAbs < b.toInt.natAbs := by
  have divisor : b.toInt ≠ 0 := fun zero => nonzero (Int64.toInt_inj.mp zero)
  rw [Int64.toInt_mod, Int.natAbs_tmod]
  exact Nat.mod_lt _ (Int.natAbs_pos.mpr divisor)

theorem mod_eq_zero_or_sign (a b : Int64) : a % b = 0 ∨ (a % b).toInt.sign = a.toInt.sign := by
  have sign := Int.sign_tmod a.toInt b.toInt
  rw [← Int64.toInt_mod] at sign
  split at sign
  · exact .inl (Int64.toInt_inj.mp (Int.sign_eq_zero_iff_zero.mp sign))
  · exact .inr sign

end Words

theorem evalExpr_unary_eq_error_iff {ev : Interpreter} {op : UnaryOp} {e : Expr} {m m' : Machine}
    {stop : Stop} : (Interpreter.evalExpr ev (.unary op e)).exec m = (.error stop, m') ↔
      (ev.expr e).exec m = (.error stop, m') := by
  rw [Interpreter.evalExpr, Run.exec_bind]
  rcases (ev.expr e).exec m with ⟨stop | v, after⟩ <;> simp

/-- Division by zero is the only failure of an operator, in any mode: a binary operator fails
exactly where it divides by zero and neither operand is null, and a unary one never does. The
operators but joining and identity yield null exactly for a null operand. The quotient and the
remainder of two words make up the dividend, unless the least word is divided by minus one. -/
theorem division_only_error (mode : CompareMode) :
    (∀ op l r e, binary mode op l r = .error e ↔
      e = .divisionByZero ∧ l ≠ .null ∧ r ≠ .null ∧
        (op = .div ∧ (r.toFloat == 0.0) = true ∨ (op = .intDiv ∨ op = .mod) ∧ r.toWord = 0)) ∧
    (∀ (ev : Interpreter) op e m stop m',
      (Interpreter.evalExpr ev (.unary op e)).exec m = (.error stop, m') ↔
        (ev.expr e).exec m = (.error stop, m')) ∧
    (∀ op l r, binary mode op l r = .ok .null ↔
      op ≠ .concat ∧ op ≠ .is ∧ (l = .null ∨ r = .null)) ∧
    (∀ op v, unary op v = .null ↔ v = .null) ∧
    ∀ l r, l ≠ .null → r ≠ .null → r.toWord ≠ 0 →
      ¬(l.toWord = Int64.minValue ∧ r.toWord = -1) → ∃ q k : Int64,
        binary mode .intDiv l r = .ok (.integer q) ∧ binary mode .mod l r = .ok (.integer k) ∧
        q.toInt * r.toWord.toInt + k.toInt = l.toWord.toInt ∧
        k.toInt.natAbs < r.toWord.toInt.natAbs ∧
        (k = 0 ∨ k.toInt.sign = l.toWord.toInt.sign) := by
  refine ⟨fun op l r e => ?_, fun _ _ _ _ _ _ => evalExpr_unary_eq_error_iff,
    fun _ _ _ => binary_eq_null_iff, fun _ _ => unary_eq_null_iff,
    fun l r left right nonzero fits => ?_⟩
  · rw [binary_eq_error_iff]
    refine and_congr_right fun _ => ?_
    rw [← and_assoc]
    refine and_congr_left fun zero => ?_
    have divides : op ≠ .concat ∧ op ≠ .is := by
      obtain ⟨rfl, -⟩ | ⟨rfl | rfl, -⟩ := zero <;> exact ⟨nofun, nofun⟩
    rw [Nullified, ← and_assoc, and_iff_right divides, not_or]
  · have live (op : BinaryOp) : ¬Nullified op l r := fun null => null.2.2.elim left right
    refine ⟨l.toWord / r.toWord, l.toWord % r.toWord, ?_, ?_, div_mul_add_mod fits,
      natAbs_mod_lt _ nonzero, mod_eq_zero_or_sign _ _⟩
    · rw [binary_intDiv (live _) nonzero, quotient_eq fits]
    · rw [binary_mod (live _) nonzero, remainder_eq]

theorem half_divided : ∃ q k : Int64,
    binary .text .intDiv (.float (-7.5)) (.string "3") = .ok (.integer q) ∧
    binary .text .mod (.float (-7.5)) (.string "3") = .ok (.integer k) ∧
    q.toInt * 3 + k.toInt = -8 ∧ k.toInt.natAbs < 3 ∧ (k = 0 ∨ k.toInt.sign = -1) := by
  have dividend : Value.toWord (.float (-7.5)) = -8 := by decide +kernel
  have divisor : Value.toWord (.string "3") = 3 := by decide +kernel
  have law := (division_only_error .text).2.2.2.2 (.float (-7.5)) (.string "3") nofun nofun
  rw [dividend, divisor] at law
  exact law (by decide) (by decide)

end Operator
end ServerScript
